import Quorum.Text.Hex
/-!
# Universally unique identifiers

An identifier is 128 bits, written as 32 hexadecimal digits in five groups. It may also be read
without the hyphens, in braces, or as a uniform resource name.
-/
namespace Quorum

/-- An identifier of 128 bits. -/
structure Uuid where
  bits : BitVec 128
deriving DecidableEq, Repr, Inhabited

namespace Uuid
open Text

/-- The lowest `n` hexadecimal digits of a number, highest first. -/
def hexDigits : (n : Nat) → Nat → List Char
  | 0, _ => []
  | n + 1, v => hexDigits n (v / 16) ++ [Hex.digit (v % 16)]

def digits (u : Uuid) : List Char := hexDigits 32 u.bits.toNat

def hyphenate (ds : List Char) : List Char :=
  ds.take 8 ++ '-' :: (ds.drop 8).take 4 ++ '-' :: (ds.drop 12).take 4 ++
    '-' :: (ds.drop 16).take 4 ++ '-' :: ds.drop 20

/-- The identifier in lower case, its digits in five groups. -/
def text (u : Uuid) : String := String.ofList (hyphenate u.digits)

/-- The first eight digits, by which a request is shown where the whole identifier would be too
long. -/
def short (u : Uuid) : String := String.ofList (u.digits.take 8)

def ofDigits? (ds : List Char) : Option Uuid := do
  if ds.length ≠ 32 then none
  let n ← Hex.number? ds
  return ⟨BitVec.ofNat 128 n⟩

/-- Takes the hyphens out of their four places. -/
def unhyphenate? (cs : List Char) : Option (List Char) :=
  let isHyphen (i : Nat) : Bool := cs[i]? = some '-'
  if cs.length = 36 && isHyphen 8 && isHyphen 13 && isHyphen 18 && isHyphen 23 then
    some (cs.take 8 ++ (cs.drop 9).take 4 ++ (cs.drop 14).take 4 ++ (cs.drop 19).take 4 ++
      cs.drop 24)
  else none

def urnMark : List Char := "urn:uuid:".toList

/-- The hyphenated form inside braces or behind the mark of a name, which is in either case. -/
def unwrap (cs : List Char) : List Char :=
  if cs.head? = some '\x7b' && cs.getLast? = some '\x7d' && cs.length = 38 then (cs.drop 1).dropLast
  else if urnMark.isPrefixOf (cs.map Char.toLower) then cs.drop urnMark.length
  else cs

/-- An identifier in any of its spellings: with or without hyphens, in braces, or behind the mark of
its name space. -/
def parse? (s : String) : Option Uuid :=
  let cs := s.toList
  if cs.length = 32 then ofDigits? cs
  else (unhyphenate? (unwrap cs)).bind ofDigits?

end Uuid
end Quorum
