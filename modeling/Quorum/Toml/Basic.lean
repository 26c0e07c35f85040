import Quorum.Integer
import Quorum.Json.Basic
import Quorum.Sorted.Map
import Quorum.Toml.Moment
/-!
# Configuration trees

The values of a TOML document. A table lists its members in key order, each key once. Dates and
times matter as text only, so they are kept in one normal form of it.
-/
namespace Quorum.Toml
open Decimal

/-- A number with a fraction, or one of those that have no digits. -/
inductive Number
  | finite (value : Binary64)
  | infinite (negative : Bool)
  | undefined
deriving DecidableEq, Repr

/-- A TOML value. Dates and times are kept as the text they were written in. -/
inductive Value
  | bool (value : Bool)
  | integer (value : Int)
  | float (value : Number)
  | string (value : String)
  | moment (text : String)
  | array (items : List Value)
  | table (members : List (String × Value))
deriving Repr, Inhabited

namespace Value

/-- Whether other values can lie inside by name. -/
def isTable : Value → Bool
  | table _ => true
  | _ => false

/-- The value under a key of a table. -/
def member? (key : String) : Value → Option Value
  | table members => members.lookup key
  | _ => none

/-- The value at a path of keys. A path that goes through anything but tables leads nowhere. -/
def at? : List String → Value → Option Value
  | [], v => some v
  | k :: ks, v => (v.member? k).bind (at? ks)

mutual
/-- Every key of every table stands once, in order. -/
def Ordered : Value → Prop
  | array items => OrderedItems items
  | table members => members.Pairwise (·.1 < ·.1) ∧ OrderedMembers members
  | _ => True
def OrderedItems : List Value → Prop
  | [] => True
  | v :: vs => Ordered v ∧ OrderedItems vs
def OrderedMembers : List (String × Value) → Prop
  | [] => True
  | (_, v) :: ms => Ordered v ∧ OrderedMembers ms
end

mutual
/-- The tree as JSON. `moment` says what stands for a date or time; numbers that are not finite
have no JSON and become null. -/
def toJson (ofMoment : String → Json) : Value → Json
  | bool b => .bool b
  | integer n => .int n
  | float (.finite x) => .float x
  | float _ => .null
  | string s => .string s
  | moment s => ofMoment s
  | array items => .array (itemsToJson ofMoment items)
  | table members => .object (membersToJson ofMoment members)
def itemsToJson (ofMoment : String → Json) : List Value → List Json
  | [] => []
  | v :: vs => toJson ofMoment v :: itemsToJson ofMoment vs
def membersToJson (ofMoment : String → Json) : List (String × Value) → List (String × Json)
  | [] => []
  | (k, v) :: ms => (k, toJson ofMoment v) :: membersToJson ofMoment ms
end

/-- What a table stands for that says it is a moment. -/
def ofSpelling? : Value → Option Value
  | string s => (Moment.spelled? s).map moment
  | _ => none

mutual
/-- The tree of a JSON value, unless it holds a null, an integer of more than 64 bits, or a moment
that is none. -/
def ofJson? : Json → Option Value
  | .null => none
  | .bool b => some (bool b)
  | .int n => if Bounds.inInt64 n then some (integer n) else none
  | .float x => some (float (.finite x))
  | .string s => some (string s)
  | .array items => array <$> itemsOfJson? items
  | .object members => do
    match ← membersOfJson? members with
    | (key, v) :: others =>
      if key = Moment.key then if others.isEmpty then ofSpelling? v else none
      else return table ((key, v) :: others)
    | [] => return table []
def itemsOfJson? : List Json → Option (List Value)
  | [] => some []
  | j :: js => do return (← ofJson? j) :: (← itemsOfJson? js)
def membersOfJson? : List (String × Json) → Option (List (String × Value))
  | [] => some []
  | (k, j) :: ms => do
    let v ← ofJson? j
    return putEntry k v (← membersOfJson? ms)
end

end Value
end Quorum.Toml
