import Quorum.Text.Hex
import Quorum.Toml.Basic
/-!
# Unquoted values

Truth values, numbers, dates and times are written as one word without quotes. Digits may be grouped
by single underscores. Integers fit 64 signed bits.
-/
namespace Quorum.Toml.Word
open Decimal Text

/-- What a value without quotes may be made of. -/
def isWordChar (c : Char) : Bool :=
  c.isAlphanum || c = '+' || c = '-' || c = '_' || c = '.' || c = ':'

/-- The digits of a group without the underscores, each of which stands between two digits. -/
def ungroup (isDigit : Char → Bool) : List Char → Option (List Char)
  | [] => none
  | [d] => if isDigit d then some [d] else none
  | d :: '_' :: ds => if isDigit d then (d :: ·) <$> ungroup isDigit ds else none
  | d :: ds => if isDigit d then (d :: ·) <$> ungroup isDigit ds else none

def valueOf (base : Nat) (digits : List Char) : Nat :=
  digits.foldl (fun n d => base * n + (Hex.value? d).getD 0) 0

def inBase (base : Nat) (c : Char) : Bool :=
  match Hex.value? c with
  | some n => n < base
  | none => false

/-- The integer with the given digits. Whatever the base, one with more than 64 of them behind its
leading zeros does not fit. -/
def integerOf (base : Nat) (negative : Bool) (digits : List Char) : Option Value :=
  let digits := digits.dropWhile (· = '0')
  if digits.length > 64 then none
  else
    let magnitude : Int := valueOf base digits
    let n := if negative then -magnitude else magnitude
    if Bounds.inInt64 n then some (.integer n) else none

/-- A whole number in a base other than ten. It has no sign. -/
def integerIn (base : Nat) (cs : List Char) : Option Value := do
  integerOf base false (← ungroup (inBase base) cs)

/-- A sign, negative if it is a minus, and what follows it. -/
def signed : List Char → Bool × List Char
  | '-' :: cs => (true, cs)
  | '+' :: cs => (false, cs)
  | cs => (false, cs)

/-- Decimal digits that do not start with a zero, unless zero is all there is. -/
def wholePart (cs : List Char) : Option (List Char) := do
  let digits ← ungroup Char.isDigit cs
  if digits.length > 1 ∧ digits.head? = some '0' then none else return digits

/-- A whole number in base ten, without zeros in front. -/
def integer? (cs : List Char) : Option Value := do
  let (negative, cs) := signed cs
  integerOf 10 negative (← wholePart cs)

def isExponentMark (c : Char) : Bool := c = 'e' || c = 'E'

def exponent? : List Char → Option Int
  | [] => some 0
  | _ :: cs => do
    let (negative, cs) := signed cs
    let n : Int := valueOf 10 (← ungroup Char.isDigit cs)
    return if negative then -n else n

def places? : List Char → Option (List Char)
  | [] => some []
  | _ :: cs => ungroup Char.isDigit cs

/-- The value of decimal digits, with as many digits left out as do not matter to a double: behind
the first eight hundred it only matters whether all are zeros. -/
def leadingValue (digits : List Char) : Nat × Nat :=
  let digits := digits.dropWhile (· = '0')
  let (first, rest) := (digits.take 800, digits.drop 800)
  if rest.all (· = '0') then (valueOf 10 first, rest.length)
  else (valueOf 10 (first ++ ['1']), rest.length - 1)

/-- A decimal number, rounded to the nearest double. One that is too large is no number, though one
that is too small below zero counts as infinite. -/
def decimal? (cs : List Char) : Option Value := do
  let (negative, cs) := signed cs
  let (mantissa, power) := (cs.takeWhile (!isExponentMark ·), cs.dropWhile (!isExponentMark ·))
  let whole ← wholePart (mantissa.takeWhile (· != '.'))
  let places ← places? (mantissa.dropWhile (· != '.'))
  let exponent ← exponent? power
  let (value, leftOut) := leadingValue (whole ++ places)
  match Binary64.nearest? value (exponent - places.length + leftOut) with
  | some x => return .float (.finite (if negative then x.negate else x))
  | none => if negative then return .float (.infinite true) else none

/-- The numbers that have names. -/
def special? (cs : List Char) : Option Value :=
  match signed cs with
  | (negative, ['i', 'n', 'f']) => some (.float (.infinite negative))
  | (_, ['n', 'a', 'n']) => some (.float .undefined)
  | _ => none

/-- A number in any notation. -/
def number? : List Char → Option Value
  | '0' :: 'x' :: cs => integerIn 16 cs
  | '0' :: 'o' :: cs => integerIn 8 cs
  | '0' :: 'b' :: cs => integerIn 2 cs
  | cs => ((special? cs).or (integer? cs)).or <|
      if cs.any fun c => c = '.' || isExponentMark c then decimal? cs else none

/-- What a word stands for: a truth value, a date or time, or a number. -/
def meaning? (cs : List Char) : Option Value :=
  if cs = ['t', 'r', 'u', 'e'] then some (.bool true)
  else if cs = ['f', 'a', 'l', 's', 'e'] then some (.bool false)
  else ((Moment.bare? cs).map .moment).or (number? cs)

/-- A date and the time behind one space make one word. -/
def joinsNext (word rest : List Char) : Bool :=
  match Moment.date? word, rest with
  | some (_, []), ' ' :: c :: _ => isWordChar c
  | _, _ => false

def read? (cs : List Char) : Option (Value × List Char) :=
  let word := cs.takeWhile isWordChar
  let rest := cs.dropWhile isWordChar
  if joinsNext word rest then
    let time := rest.tail.takeWhile isWordChar
    (meaning? (word ++ ' ' :: time)).map (·, rest.tail.dropWhile isWordChar)
  else (meaning? word).map (·, rest)

end Quorum.Toml.Word
