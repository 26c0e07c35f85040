import Quorum.Json.Basic
import Quorum.Json.Fault
import Quorum.Text.Quoted
/-!
# Why JSON is not a value of some type

A value can have the wrong shape; a text can also stop being JSON. Of the two, what comes first in
the text counts.
-/
namespace Quorum

/-- What was found where something else was expected. -/
inductive Found
  | null
  | bool (value : Bool)
  | int (value : Int)
  | float (value : Decimal.Binary64)
  | string (value : String)
  | sequence
  | map
deriving DecidableEq, Repr

/-- What is wrong with a JSON value. Which of several faults is met first is part of the behaviour,
since only that one is reported. -/
inductive DecodeError
  | wrongType (found : Found) (expected : String)
  /-- A whole number outside the range of the expected type. -/
  | wrongValue (found : Found) (expected : String)
  | missingField (name : String)
  | duplicateField (name : String)
  | tooShort (length : Nat) (expected : String)
  | tooLong (length : Nat)
  | unknownVariant (name : String) (known : List String)
  | notVariant (found : Found)
  /-- A variant object has exactly one member. -/
  | notOneMember
  /-- A variant that carries a value was given by name alone. -/
  | missingContent
  | noShapeMatches (type : String)
  | malformed (message : String)
deriving DecidableEq, Repr

def Found.message : Found → String
  | .null => "null"
  | .bool b => s!"boolean `{b}`"
  | .int n => s!"integer `{n}`"
  | .float x => s!"floating point `{x.text}`"
  | .string s => s!"string {Text.Quoted.quote s}"
  | .sequence => "sequence"
  | .map => "map"

/-- The names that would have done, as a message lists them. -/
def oneOf : List String → String
  | [] => "there are no variants"
  | [a] => s!"expected `{a}`"
  | [a, b] => s!"expected `{a}` or `{b}`"
  | names => "expected one of " ++ ", ".intercalate (names.map fun n => s!"`{n}`")

/-- What is said of the error, without the place in the text. -/
def DecodeError.message : DecodeError → String
  | wrongType found expected => s!"invalid type: {found.message}, expected {expected}"
  | wrongValue found expected => s!"invalid value: {found.message}, expected {expected}"
  | missingField name => s!"missing field `{name}`"
  | duplicateField name => s!"duplicate field `{name}`"
  | tooShort length expected => s!"invalid length {length}, expected {expected}"
  | tooLong length => s!"invalid length {length}, expected fewer elements in array"
  | unknownVariant name known => s!"unknown variant `{name}`, {oneOf known}"
  | notVariant found => s!"invalid type: {found.message}, expected string or map"
  | notOneMember => "invalid value: map, expected map with a single key"
  | missingContent => "invalid type: unit variant, expected newtype variant"
  | noShapeMatches type => s!"data did not match any variant of untagged enum {type}"
  | malformed message => message

/-- What is wrong with a text. -/
inductive TextError
  | fault (fault : Json.Fault)
  | shape (error : DecodeError)
deriving DecidableEq, Repr

namespace TextError

/-- How an error in a text is classed: the text breaks off, it is no JSON, or it is JSON of the
wrong shape. -/
inductive Class
  | ending
  | grammar
  | shape
deriving DecidableEq, Repr

/-- Whether a text is no JSON, ends too early, or is JSON of another shape. -/
def classOf : TextError → Class
  | fault f => if f.cause.atEnd then .ending else .grammar
  | shape _ => .shape

def message : TextError → String
  | fault f => f.cause.message
  | shape e => e.message

/-- Faults are errors wherever shapes are looked at, too. -/
instance : MonadLift (Except Json.Fault) (Except TextError) := ⟨(·.mapError fault)⟩

end TextError

namespace Json

def found : Json → Found
  | null => .null
  | bool b => .bool b
  | int n => .int n
  | float x => .float x
  | string s => .string s
  | array _ => .sequence
  | object _ => .map

/-- The error of a value whose type is not the expected one. -/
def unexpected (j : Json) (expected : String) : Except DecodeError α :=
  .error (.wrongType j.found expected)

end Json
end Quorum
