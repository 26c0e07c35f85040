import Quorum.Decimal.Binary64
/-!
# The shortest decimal that reads back

Every double is the nearest one to a whole interval of decimals. Written out is the decimal of
that interval with the fewest digits, and of those the one closest to the double.
-/
namespace Quorum.Decimal
namespace Shortest
open Binary64

/-- The interval of magnitudes that round to a double, over the common denominator `den`. -/
structure Interval where
  low : Nat
  value : Nat
  high : Nat
  den : Nat
  /-- Ties go to the even mantissa, which then owns both ends of its interval. -/
  closed : Bool

/-- The numbers that are read back as `x`, over one denominator. The borders belong to it if the
mantissa is even. -/
def interval (x : Binary64) : Interval :=
  -- below the least mantissa of a binade the neighbour is only half as far away
  let narrow := x.mantissa = twoTo 52 ∧ x.exponent > -1074
  let up := if x.exponent ≥ 0 then twoTo x.exponent.toNat else 1
  let down := if x.exponent ≥ 0 then 1 else twoTo (-x.exponent).toNat
  { low := (4 * x.mantissa - if narrow then 1 else 2) * up
    value := 4 * x.mantissa * up
    high := (4 * x.mantissa + 2) * up
    den := 4 * down
    closed := x.mantissa % 2 = 0 }

/-- Whether `digits / scale` lies in the interval. -/
def Interval.contains (i : Interval) (digits scale : Nat) : Bool :=
  if i.closed then i.low * scale ≤ digits * i.den && digits * i.den ≤ i.high * scale
  else i.low * scale < digits * i.den && digits * i.den < i.high * scale

/-- The power of ten just above the value's leading digit: `10 ^ (e - 1) ≤ value < 10 ^ e`. -/
def leadingPower (num den : Nat) : Int :=
  if den ≤ num then (Nat.toDigits 10 (num / den)).length
  else
    -- `num * 10 ^ k < den` for every `k` below the number of leading zero places
    let k := (Nat.toDigits 10 (den / num)).length
    if den ≤ num * tenTo (k - 1) then -((k : Int) - 2) else -((k : Int) - 1)

/-- The neighbour of the value on the grid of multiples of `10 ^ place`, if it reads back. -/
def onGrid (i : Interval) (place : Int) : Option Nat :=
  let num := if place ≥ 0 then i.value else i.value * tenTo (-place).toNat
  let den := if place ≥ 0 then i.den * tenTo place.toNat else i.den
  let grid : Interval := if place ≥ 0 then { i with den := i.den * tenTo place.toNat }
    else { i with low := i.low * tenTo (-place).toNat, high := i.high * tenTo (-place).toNat }
  let nearest := divideToEven num den
  let below := num / den
  [nearest, below, below + 1].find? fun d => grid.contains d 1

/-- Zeros at the end of the digits move into the scale. -/
def dropZeros (digits : Nat) (scale : Int) : Nat × Int :=
  if digits ≠ 0 ∧ digits % 10 = 0 then dropZeros (digits / 10) (scale + 1) else (digits, scale)
termination_by digits
decreasing_by omega

/-- Digits and scale: the magnitude is written `digits * 10 ^ scale`. Seventeen digits tell
any two doubles apart. -/
def ofBinary64 (x : Binary64) : Nat × Int :=
  let i := interval x
  let top := leadingPower i.value i.den
  let places := (List.range 17).map fun (n : Nat) => top - 1 - n
  match places.findSome? fun place => (onGrid i place).map (·, place) with
  | some (digits, place) => dropZeros digits place
  | none => (0, 0)

end Shortest

open Shortest in
/-- The text of a double: plain digits with a point from `0.00001` up to sixteen places before
the point, otherwise one digit, the rest after a point, and a signed power of ten. -/
def Binary64.text (x : Binary64) : String :=
  let sign := if x.negative then "-" else ""
  if x.isZero then sign ++ "0.0" else
    let (digits, scale) := ofBinary64 x
    let ds := Nat.toDigits 10 digits
    let point : Int := ds.length + scale
    let zeros (n : Int) : List Char := List.replicate n.toNat '0'
    let body : List Char :=
      if 0 ≤ scale ∧ point ≤ 16 then ds ++ zeros scale ++ ['.', '0']
      else if 0 < point ∧ point ≤ 16 then ds.take point.toNat ++ '.' :: ds.drop point.toNat
      else if -5 < point ∧ point ≤ 0 then ['0', '.'] ++ zeros (-point) ++ ds
      else
        let power := point - 1
        let mark := if power < 0 then "e-" else "e+"
        let mantissa := if ds.length ≤ 1 then ds else ds.take 1 ++ '.' :: ds.drop 1
        mantissa ++ (mark ++ toString power.natAbs).toList
    sign ++ String.ofList body

end Quorum.Decimal
