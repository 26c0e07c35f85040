/-!
# Whole numbers

The largest and least whole numbers that 32 and 64 bits hold, with and without a sign, powers by
functions of their own, and numbers in text. In text a number is an optional sign and at least one
decimal digit, and it must fit 64 signed bits.
-/
namespace Quorum.Bounds

def nat32Max : Nat := 4294967295
def nat64Max : Nat := 18446744073709551615

def int32Min : Int := -2147483648
def int32Max : Int := 2147483647

def int64Min : Int := -9223372036854775808
def int64Max : Int := 9223372036854775807

def inInt32 (n : Int) : Bool := int32Min ≤ n && n ≤ int32Max

/-- Whether the number fits a field of 64 bits with a sign, which is what required and received
counts are stored in. -/
def inInt64 (n : Int) : Bool := int64Min ≤ n && n ≤ int64Max

end Quorum.Bounds

namespace Quorum.Decimal

/-- A power of two under a name of its own, so that simplification leaves it as it is instead of
writing out its digits. -/
def twoTo (n : Nat) : Nat := Nat.pow 2 n

def tenTo (n : Nat) : Nat := Nat.pow 10 n

end Quorum.Decimal

namespace Quorum.Text

def digitValue (d : Char) : Nat := d.toNat - 48

/-- The number that a row of digits stands for, whatever zeros it begins with. -/
def decimalValue (ds : List Char) : Nat := ds.foldl (fun n d => 10 * n + digitValue d) 0

/-- A row of digits and nothing else; no digits are no number. -/
def digitsToNat? (cs : List Char) : Option Nat :=
  if cs.isEmpty || !cs.all Char.isDigit then none else some (decimalValue cs)

/-- The number that a text stands for, if it fits. -/
def int64? (s : String) : Option Int :=
  let n? : Option Int := match s.toList with
    | '-' :: cs => (digitsToNat? cs).map fun n => -(n : Int)
    | '+' :: cs => (digitsToNat? cs).map fun n => (n : Int)
    | cs => (digitsToNat? cs).map fun n => (n : Int)
  n?.filter Bounds.inInt64

end Quorum.Text
