import Quorum.Integer
import Quorum.Time.Calendar
/-!
# Dates and times of TOML

A date may be followed by a time, and a time behind a date by an offset. They matter as text only,
in one normal form: a capital `T` and `Z`, at most nine places of a second without zeros at the end,
and no negative offset of zero. Written in a document as they are, they keep to the hours of a day;
spelled out in a string they may name its end, too.
-/
namespace Quorum.Toml.Moment
open Text

def twoDigits? (most : Nat) (a b : Char) : Option Nat :=
  if a.isDigit && b.isDigit && decimalValue [a, b] ≤ most then some (decimalValue [a, b]) else none

/-- A date and what follows it. -/
def date? : List Char → Option (List Char × List Char)
  | a :: b :: c :: d :: '-' :: e :: f :: '-' :: g :: h :: cs => do
    if !([a, b, c, d].all Char.isDigit) then none
    let year := decimalValue [a, b, c, d]
    let month ← twoDigits? 12 e f
    let day ← twoDigits? 31 g h
    if month = 0 || day = 0 || Date.daysInMonth year month < day then none
    else return ([a, b, c, d, '-', e, f, '-', g, h], cs)
  | _ => none

/-- The fraction of a second to nine digits, without the zeros at its end. -/
def fractionText (digits : List Char) : List Char :=
  match ((digits.take 9).reverse.dropWhile (· = '0')).reverse with
  | [] => []
  | ds => '.' :: ds

/-- A time and what follows it. A minute may have a sixty-first second. -/
def time? (lastHour : Nat) : List Char → Option (List Char × List Char)
  | a :: b :: ':' :: c :: d :: ':' :: e :: f :: cs => do
    let _ ← twoDigits? lastHour a b
    let _ ← twoDigits? 59 c d
    let _ ← twoDigits? 60 e f
    let whole := [a, b, ':', c, d, ':', e, f]
    match cs with
    | '.' :: cs =>
      match cs.takeWhile Char.isDigit with
      | [] => none
      | digits => return (whole ++ fractionText digits, cs.dropWhile Char.isDigit)
    | cs => return (whole, cs)
  | _ => none

/-- A number below a hundred in two digits. -/
def twoPlaces (n : Nat) : List Char := [Char.ofNat (48 + n / 10 % 10), Char.ofNat (48 + n % 10)]

/-- An offset at the end of a moment, if there is one, given the largest hour and minute it may be
written with and its largest size in minutes. -/
def offset? (lastHour lastMinute largest : Nat) : List Char → Option (List Char)
  | [] => some []
  | ['z'] | ['Z'] => some ['Z']
  | [sign, a, b, ':', c, d] => do
    let minutes := 60 * (← twoDigits? lastHour a b) + (← twoDigits? lastMinute c d)
    if largest < minutes then none
    else if sign = '+' || sign = '-' then
      let shown := if minutes = 0 then '+' else sign
      return shown :: twoPlaces (minutes / 60) ++ ':' :: twoPlaces (minutes % 60)
    else none
  | _ => none

/-- A whole moment in its normal form. Documents and strings have different rules for hours and
offsets, which come in as parameters. -/
def normal? (lastHour : Nat) (offset? : List Char → Option (List Char)) (cs : List Char) :
    Option String :=
  match date? cs with
  | some (date, []) => some (String.ofList date)
  | some (date, mark :: cs) =>
    if mark = 'T' || mark = 't' || mark = ' ' then do
      let (time, cs) ← time? lastHour cs
      return String.ofList (date ++ 'T' :: time ++ (← offset? cs))
    else none
  | none =>
    match time? lastHour cs with
    | some (time, []) => some (String.ofList time)
    | _ => none

/-- A moment as a document writes it. -/
def bare? (cs : List Char) : Option String := normal? 23 (offset? 23 59 1439) cs

/-- A moment that a string spells. -/
def spelled? (s : String) : Option String := normal? 24 (offset? 99 99 1440) s.toList

/-- The key of a table that stands for the moment its value spells. -/
def key : String := "$__toml_private_datetime"

end Quorum.Toml.Moment
