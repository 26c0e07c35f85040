import Quorum.Digest.Blake3
import Quorum.Digest.Encoding
import Quorum.Text.Hex
import Quorum.Text.Quoted
/-!
# Digests of approver lists

A digest tells whether an approver list has changed since it was last counted. It covers every
field of every approver and not their order. In text it is 64 hexadecimal digits.
-/
namespace Quorum

/-- Thirty-two octets that stand for a list of approvers. -/
structure Digest where
  octets : List UInt8
  length_octets : octets.length = 32
deriving DecidableEq, Repr

namespace Digest

/-- The context under which the hash is keyed. It keeps digests of approver lists apart from any
other use of the hash. -/
def domain : String := "tollgate 2026 approver-list digest v1"

theorem length_deriveKey (context material : List UInt8) :
    (Blake3.deriveKey context material).length = 32 := by
  have four : ∀ ws : List UInt32, (ws.flatMap Blake3.octetsOfWord).length = 4 * ws.length := by
    intro ws
    induction ws with
    | nil => rfl
    | cons w ws ih => simp [List.flatMap_cons, Blake3.octetsOfWord, ih]; omega
  rw [Blake3.deriveKey, four]
  simp

/-- The hash that digests are made by, in a domain of its own. -/
def hash (bytes : List UInt8) : Digest :=
  ⟨Blake3.deriveKey domain.toUTF8.toList bytes, length_deriveKey ..⟩

/-- The digest of a list of approvers as it is encoded. The order of the list does not enter, since
the encoding is sorted. -/
def ofApprovers (approvers : List Approver) : Digest := hash (Encoding.list approvers)

/-- How a digest is written on a task: two digits in lower case for each octet. -/
def hex (d : Digest) : String := Text.Hex.write d.octets

/-- Why a text is no digest. Length is looked at before any digit is, and a digit is reported with
its place. -/
inductive HexError
  | oddLength
  | wrongLength
  | badDigit (octet : UInt8) (position : Nat)
deriving DecidableEq, Repr

/-- An octet that is no digit is shown as the character of its number. -/
def HexError.message : HexError → String
  | oddLength => "Odd number of digits"
  | wrongLength => "Invalid string length"
  | badDigit b i =>
    s!"Invalid character {Text.Quoted.quoteChar (Char.ofNat b.toNat)} at position {i}"

/-- Pairs of digits into octets; `position` counts the digits before. -/
def readPairs (position : Nat) : List UInt8 → Except HexError (List UInt8)
  | a :: b :: rest =>
    match digit? a, digit? b with
    | none, _ => .error (.badDigit a position)
    | some _, none => .error (.badDigit b (position + 1))
    | some x, some y => (UInt8.ofNat (16 * x + y) :: ·) <$> readPairs (position + 2) rest
  | _ => .ok []
where
  digit? (b : UInt8) : Option Nat := Text.Hex.value? (Char.ofNat b.toNat)

theorem length_readPairs {position : Nat} {bytes out : List UInt8}
    (h : readPairs position bytes = .ok out) : out.length = bytes.length / 2 := by
  fun_induction readPairs position bytes generalizing out with
  | case1 => simp at h
  | case2 => simp at h
  | case3 position a b rest x y _ _ ih =>
    cases hr : readPairs (position + 2) rest with
    | error e => rw [hr] at h; cases h
    | ok r =>
      rw [hr] at h
      obtain rfl : UInt8.ofNat (16 * x + y) :: r = out := Except.ok.inj h
      simp only [List.length_cons, ih hr]
      omega
  | case4 bytes position hne =>
    obtain rfl : [] = out := Except.ok.inj h
    match bytes, hne with
    | [], _ => rfl
    | [_], _ => simp
    | a :: b :: rest, hne => exact absurd rfl (hne a b rest)

/-- Reads 64 digits of either case. Two texts of one digest may differ in case, so that passes
compare digests and not their texts. -/
def ofHex (s : String) : Except HexError Digest :=
  let bytes := s.toUTF8.toList
  if bytes.length % 2 = 1 then .error .oddLength
  else if hl : bytes.length ≠ 64 then .error .wrongLength
  else match h : readPairs 0 bytes with
    | .ok out => .ok ⟨out, by have := length_readPairs h; omega⟩
    | .error e => .error e

end Digest
end Quorum
