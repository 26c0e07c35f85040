import Quorum.Integer
/-!
# Double precision numbers as exact fractions

A finite double is `± mantissa * 2 ^ exponent` with a mantissa below `2 ^ 53`. All arithmetic is
done on naturals and rounded once per operation, ties to the even mantissa.
-/
namespace Quorum.Decimal

/-- A floating-point number of 64 bits, as a sign, a whole mantissa and a power of two. -/
structure Binary64 where
  negative : Bool
  mantissa : Nat
  exponent : Int
deriving DecidableEq, Repr

namespace Binary64

/-- The positive zero, in the form that all zeros are kept in. -/
def zero : Binary64 := ⟨false, 0, -1074⟩

def isZero (x : Binary64) : Bool := x.mantissa = 0

def negate (x : Binary64) : Binary64 := { x with negative := !x.negative }

/-- The quotient rounded to the nearest natural, a half to the even one. -/
def divideToEven (num den : Nat) : Nat :=
  let q := num / den
  let twice := 2 * (num % den)
  if twice < den then q else if den < twice then q + 1 else q + q % 2

/-- The power of two that one unit of the mantissa of `num / den` stands for. -/
def unitExponent (num den : Nat) : Int :=
  let guess : Int := (num.log2 : Int) - den.log2 - 52
  -- `num / den` lies within a factor two of `2 ^ (guess + 52)`
  let fits := if guess ≥ 0 then twoTo 52 * den * twoTo guess.toNat ≤ num
    else twoTo 52 * den ≤ num * twoTo (-guess).toNat
  max (-1074) (if fits then guess else guess - 1)

/-- The double nearest to `num / den`, or `none` where it would be infinite. -/
def ofRatio? (num den : Nat) : Option Binary64 :=
  if num = 0 ∨ den = 0 then some zero else
    let e := unitExponent num den
    let m := if e ≥ 0 then divideToEven num (den * twoTo e.toNat)
      else divideToEven (num * twoTo (-e).toNat) den
    let x : Binary64 := if m = twoTo 53 then ⟨false, twoTo 52, e + 1⟩ else ⟨false, m, e⟩
    if x.exponent > 971 then none else some x

/-- The magnitude as a fraction, which is exact: the denominator is a power of two. -/
def ratio (x : Binary64) : Nat × Nat :=
  if x.exponent ≥ 0 then (x.mantissa * twoTo x.exponent.toNat, 1)
  else (x.mantissa, twoTo (-x.exponent).toNat)

/-- The product, rounded once; nothing if it is out of range. -/
def mul? (x y : Binary64) : Option Binary64 :=
  ofRatio? (x.ratio.1 * y.ratio.1) (x.ratio.2 * y.ratio.2)

/-- The quotient, rounded once; nothing if it is out of range. -/
def div? (x y : Binary64) : Option Binary64 :=
  ofRatio? (x.ratio.1 * y.ratio.2) (x.ratio.2 * y.ratio.1)

/-- `digits * 10 ^ scale` as read in text: the digits and the power of ten are each rounded
first, and the result is their product or quotient. `none` stands for a magnitude out of range. -/
def ofDecimal? (digits : Nat) (scale : Int) : Option Binary64 := do
  let d ← ofRatio? digits 1
  if d.isZero then return zero
  if scale > 308 then none
  else if scale ≥ 0 then d.mul? (← ofRatio? (tenTo scale.toNat) 1)
  else if scale ≥ -308 then d.div? (← ofRatio? (tenTo (-scale).toNat) 1)
  else if scale ≥ -616 then do
    let step ← ofRatio? (tenTo 308) 1
    (← d.div? step).div? (← ofRatio? (tenTo (-scale - 308).toNat) 1)
  else return zero

/-- `digits * 10 ^ scale` rounded once. The powers of ten cut off at either end lie far outside the
range of doubles. -/
def nearest? (digits : Nat) (scale : Int) : Option Binary64 :=
  if digits = 0 ∨ scale < -400 - (digits.log2 : Int) then some zero
  else if scale > 400 then none
  else if scale ≥ 0 then ofRatio? (digits * tenTo scale.toNat) 1
  else ofRatio? digits (tenTo (-scale).toNat)

end Binary64
end Quorum.Decimal
