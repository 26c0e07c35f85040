import Quorum.Decimal.Shortest
/-!
# JSON values
-/
namespace Quorum
open Decimal

/-- A JSON value. Whole numbers are kept apart from all others, and the members of an object stand
in the order they came in, repeated ones included. -/
inductive Json
  | null
  | bool (value : Bool)
  | int (value : Int)
  | float (value : Binary64)
  | string (value : String)
  | array (items : List Json)
  | object (members : List (String × Json))
deriving Repr, Inhabited

namespace Json

/-- A member put into its place by key; a member of the same key gives way. -/
def putMember (key : String) (value : Json) : List (String × Json) → List (String × Json)
  | [] => [(key, value)]
  | (k, v) :: ms =>
    if key < k then (key, value) :: (k, v) :: ms
    else if key = k then (key, value) :: ms
    else (k, v) :: putMember key value ms

mutual
/-- The same value with the members of every object in key order, of repeated keys the last. -/
def sorted : Json → Json
  | array items => array (sortedItems items)
  | object members => object (sortedMembers members [])
  | j => j
def sortedItems : List Json → List Json
  | [] => []
  | j :: js => sorted j :: sortedItems js
def sortedMembers : List (String × Json) → List (String × Json) → List (String × Json)
  | [], done => done
  | (k, j) :: ms, done => sortedMembers ms (putMember k (sorted j) done)
end

/-- The first member of that key, if the value is an object at all. -/
def member? (key : String) : Json → Option Json
  | object members => members.lookup key
  | _ => none

end Json
end Quorum
