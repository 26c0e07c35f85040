import Quorum.Json.Basic
import Quorum.Sorted.Map
/-!
# Building JSON values

A record is written as the list of its fields, each of which may be left out.
-/
namespace Quorum.Json

/-- A member of an object that is to be written, or one that is to be left out. -/
abbrev Field := Option (String × Json)

def field (name : String) (value : Json) : Field := some (name, value)

/-- A member that is written only on a condition, usually that it would not be empty. -/
def fieldIf (present : Bool) (name : String) (value : Json) : Field :=
  if present then some (name, value) else none

/-- A member that is left out when there is no value. -/
def fieldSome (name : String) (encode : α → Json) (value : Option α) : Field :=
  value.map fun a => (name, encode a)

/-- An object of the members that are written, in the order they are listed in. -/
def ofFields (fields : List Field) : Json := object (fields.filterMap id)

def ofNat (n : Nat) : Json := int n

def ofList (encode : α → Json) (as : List α) : Json := array (as.map encode)

/-- A member that is always there, null when there is no value. -/
def ofOption (encode : α → Json) : Option α → Json
  | some a => encode a
  | none => null

/-- An object with a member for each entry, in key order. -/
def ofMap (encode : α → Json) (m : SortedMap α) : Json :=
  object (m.entries.map fun (k, a) => (k, encode a))

end Quorum.Json
