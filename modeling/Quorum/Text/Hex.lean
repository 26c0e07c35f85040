/-!
# Hexadecimal text

Octets are written as two lower-case digits each and read in either case.
-/
namespace Quorum.Text.Hex

/-- The digit of a number below sixteen, in lower case. -/
def digit (n : Nat) : Char :=
  if n < 10 then Char.ofNat (48 + n) else Char.ofNat (87 + n)

/-- The number that a digit of either case stands for. -/
def value? (c : Char) : Option Nat :=
  let n := c.toNat
  if 48 ≤ n ∧ n ≤ 57 then some (n - 48)
  else if 97 ≤ n ∧ n ≤ 102 then some (n - 87)
  else if 65 ≤ n ∧ n ≤ 70 then some (n - 55)
  else none

def number? (ds : List Char) : Option Nat :=
  ds.foldlM (fun n d => (16 * n + ·) <$> value? d) 0

/-- Two digits for each octet, the higher one in front. -/
def octet (b : UInt8) : List Char := [digit (b.toNat / 16), digit (b.toNat % 16)]

/-- Octets as the text of their digits, two for each, in lower case and without anything in
between. -/
def write (bytes : List UInt8) : String := String.ofList (bytes.flatMap octet)

/-- The digits of `n`, highest first, with none for zero. -/
def digitsOf (n : Nat) : List Char :=
  if n = 0 then [] else digitsOf (n / 16) ++ [digit (n % 16)]
termination_by n
decreasing_by omega

def ofNat (n : Nat) : String := if n = 0 then "0" else String.ofList (digitsOf n)

end Quorum.Text.Hex
