import Quorum.Integer
import Quorum.Json.DecodeError
import Quorum.Json.Reader
/-!
# Decoding JSON

A decoder knows the JSON of one type, as a tree and as a text. Reading a text, it looks no further
than the first thing that is wrong: a fault behind a value of the wrong type is not seen. What it
has read is a tree that decodes.
-/
namespace Quorum

/-- How the JSON of one type is read: off the front of a text, or from a tree that is there
already. -/
structure Decoder (α : Type) where
  /-- The value at the front of a text and what is left. At most `room` containers may be open at
  once, and no loop takes more than `fuel` steps. -/
  read : (fuel room : Nat) → List Char → Except TextError (Json × List Char)
  ofJson : Json → Except DecodeError α

namespace Decoder
open Json

/-- A decoder that judges a value as soon as its text is read. -/
def judging (read : (fuel room : Nat) → List Char → Except TextError (Json × List Char))
    (ofJson : Json → Except DecodeError α) : Decoder α where
  read fuel room cs := do
    let (j, rest) ← read fuel room cs
    match ofJson j with
    | .ok _ => return (j, rest)
    | .error e => throw (.shape e)
  ofJson := ofJson

/-- A decoder of the same JSON that makes something else of the value. -/
def map (f : α → β) (d : Decoder α) : Decoder β := ⟨d.read, fun j => f <$> d.ofJson j⟩

/-- The value of a whole text, with nothing but blanks behind it. -/
def ofText (d : Decoder α) (text : String) : Except TextError α := do
  let cs := text.toList
  let (j, rest) ← d.read (2 * cs.length + 2) maxDepth cs
  expectEnd rest
  (d.ofJson j).mapError .shape

/-- A value that is no container. Of a container the opening bracket is enough to refuse it. -/
def scalar (ofJson : Json → Except DecodeError α) : Decoder α :=
  judging (fun _ _ cs => readHead cs) ofJson

def string : Decoder String := scalar fun
  | .string s => .ok s
  | j => j.unexpected "a string"

def bool : Decoder Bool := scalar fun
  | .bool b => .ok b
  | j => j.unexpected "a boolean"

def unit : Decoder Unit := scalar fun
  | .null => .ok ()
  | j => j.unexpected "unit"

/-- A whole number within bounds. One outside them has the right type and the wrong value. -/
def integer (low high : Int) (type : String) : Decoder Int := scalar fun
  | .int n => if low ≤ n ∧ n ≤ high then .ok n else .error (.wrongValue (.int n) type)
  | j => j.unexpected type

def int64 : Decoder Int := integer Bounds.int64Min Bounds.int64Max "i64"

def nat64 : Decoder Nat := (integer 0 Bounds.nat64Max "u64").map Int.toNat

def nat32 : Decoder Nat := (integer 0 Bounds.nat32Max "u32").map Int.toNat

/-- Text in a notation of its own. `expected` says what it should have been. -/
def parsed (expected : String) (parse : String → Except String α) : Decoder α := scalar fun
  | .string s => (parse s).mapError .malformed
  | j => j.unexpected expected

/-- Null is no value; everything else is read as a value. -/
def option (d : Decoder α) : Decoder (Option α) where
  read fuel room cs :=
    match skipGaps cs with
    | 'n' :: cs => do return (.null, ← readWord ['u', 'l', 'l'] cs)
    | cs => d.read fuel room cs
  ofJson
    | .null => .ok none
    | j => some <$> d.ofJson j

/-- Any JSON, read whole before it is judged. A fault further on in the text then comes before a
complaint about what has been read. -/
def whole (ofJson : Json → Except DecodeError α) : Decoder α :=
  judging
    (fun fuel room cs => do
      let (j, rest) ← readValue fuel room cs
      return (j.sorted, rest))
    ofJson

/-- Every JSON, its members in order of their keys. -/
def json : Decoder Json := whole .ok

/-- The room inside a container that opens here. Containers nest only so deep, and the bracket that
is one too many is the place of the fault. -/
def enter (room : Nat) (cs : List Char) : Except Fault Nat :=
  match room with
  | 0 => .error (.ahead .tooDeep cs)
  | room + 1 => .ok room

/-- A list of values, each of them judged before the next one is read. -/
def list (item : Decoder α) : Decoder (List α) :=
  judging
    (fun fuel room cs =>
      match skipGaps cs with
      | '[' :: cs => do
        let room ← enter room ('[' :: cs)
        let (items, rest) ← readItems .fault (item.read fuel room) fuel true [] cs
        return (.array items.reverse, rest)
      | cs => readHead cs)
    fun
      | .array js => js.mapM item.ofJson
      | j => j.unexpected "a sequence"

/-- The members of an object. -/
def members (value : Decoder α) : Decoder (List (String × α)) :=
  judging
    (fun fuel room cs =>
      match skipGaps cs with
      | '\x7b' :: cs => do
        let room ← enter room ('\x7b' :: cs)
        let (ms, rest) ← readMembers .fault (value.read fuel room) fuel true [] cs
        return (.object ms.reverse, rest)
      | cs => readHead cs)
    fun
      | .object ms => ms.mapM fun (k, j) => (k, ·) <$> value.ofJson j
      | j => j.unexpected "a map"

end Decoder

/-- One of the names that a value may go by. -/
structure Variant (α : Type) where
  name : String
  /-- What the name means without content. -/
  alone : Option α
  content : Decoder α

namespace Variant

/-- A name that says it all. Its content, if there is any, is null. -/
def plain (name : String) (a : α) : Variant α := ⟨name, some a, Decoder.unit.map fun _ => a⟩

/-- A variant that carries a value. -/
def holding (name : String) (content : Decoder α) : Variant α := ⟨name, none, content⟩

end Variant

namespace Decoder
open Json

def variantOf (vs : List (Variant α)) (name : String) : Except DecodeError (Variant α) :=
  match vs.find? (·.name = name) with
  | some v => .ok v
  | none => .error (.unknownVariant name (vs.map (·.name)))

/-- The name in a variant object behind its bracket. -/
def readVariantName (cs : List Char) : Except Fault (String × List Char) :=
  match skipGaps cs with
  | [] => .error (.ahead .endInObject [])
  | '\x7d' :: cs => .error (.ahead .missingValue ('\x7d' :: cs))
  | cs => readKey cs

/-- One of several names, given as a string or as an object `name : content`. -/
def variant (vs : List (Variant α)) : Decoder α :=
  judging
    (fun fuel room cs =>
      match skipGaps cs with
      | [] => throw (.fault (.ahead .endInValue []))
      | '"' :: cs => do
        let (name, rest) ← readString cs
        return (.string name, rest)
      | '\x7b' :: cs => do
        let room ← enter room ('\x7b' :: cs)
        let (name, cs) ← readVariantName cs
        let v ← (variantOf vs name).mapError .shape
        let (j, cs) ← v.content.read fuel room (← readColon cs)
        match skipGaps cs with
        | '\x7d' :: rest => return (.object [(name, j)], rest)
        | [] => throw (.fault (.before .endInObject []))
        | cs => throw (.fault (.before .missingValue cs))
      | cs => throw (.fault (.ahead .missingValue cs)))
    fun
      | .string name => do
        match (← variantOf vs name).alone with
        | some a => .ok a
        | none => .error .missingContent
      | .object [(name, content)] => do (← variantOf vs name).content.ofJson content
      | .object _ => .error .notOneMember
      | j => .error (.notVariant j.found)

end Decoder
end Quorum
