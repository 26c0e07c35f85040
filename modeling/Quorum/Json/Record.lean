import Quorum.Json.Decoder
import Quorum.Json.Skip
/-!
# Decoding records

A record is an object, or a list of its fields in order. Of several complaints about a record the
one that comes first in the JSON counts; fields that are missing altogether come after everything
that is there. Members that belong to no field are passed over.
-/
namespace Quorum
open Json

/-- An error and how far into the record it was met. -/
structure Complaint where
  place : Nat
  error : DecodeError

/-- A part of a record: its value, or the earliest complaint about it. -/
def Part (α : Type) := Except Complaint α

namespace Part

def pure (a : α) : Part α := Except.ok a

/-- Of two complaints the one met first counts. -/
def apply (f : Part (α → β)) (x : Unit → Part α) : Part β :=
  match f, x () with
  | .ok f, .ok a => .ok (f a)
  | .ok _, .error c => .error c
  | .error c, .ok _ => .error c
  | .error c, .error d => .error (if d.place < c.place then d else c)

instance : Applicative Part where
  pure := Part.pure
  seq := Part.apply

/-- A part that cannot be made, with the place that its complaint is about. -/
def complain (place : Nat) (error : DecodeError) : Part α := Except.error ⟨place, error⟩

def ofJson (d : Decoder α) (place : Nat) (j : Json) : Part α :=
  match d.ofJson j with
  | .ok a => Part.pure a
  | .error e => complain place e

end Part

/-- A record as it was given. Records may come as objects or as lists of the values of their
fields. -/
inductive Record
  | named (members : List (String × Json))
  | positional (items : List Json)

/-- The member of a field with its place, and the place of a second one. -/
def occurrences (names : List String) (members : List (String × Json)) :
    Option (Nat × Json) × Option Nat :=
  match members.zipIdx.filter fun ((k, _), _) => names.contains k with
  | [] => (none, none)
  | [((_, j), i)] => (some (i, j), none)
  | ((_, j), i) :: (_, second) :: _ => (some (i, j), some second)

/-- The form of one field: the names it goes by, and how its value is read. -/
structure Slot where
  /-- The names it may be given under, the first of which is its own. -/
  names : List String
  read : (fuel room : Nat) → List Char → Except TextError (Json × List Char)

def Slot.name (s : Slot) : String := s.names.headD ""

/-- The fields of a record and what they make, given how a record that ends too early is called
and the position of the first of them. -/
structure Fields (α : Type) where
  slots : List Slot
  make : (expected : String) → (position : Nat) → Record → Part α

namespace Fields

def pure (a : α) : Fields α := ⟨[], fun _ _ _ => Part.pure a⟩

def apply (f : Fields (α → β)) (x : Unit → Fields α) : Fields β where
  slots := f.slots ++ (x ()).slots
  make expected position r :=
    f.make expected position r <*> (x ()).make expected (position + f.slots.length) r

instance : Applicative Fields where
  pure := Fields.pure
  seq := Fields.apply

/-- One field. `absent` is what an object without it holds; a list may only leave it out if it
is `last`, with all fields behind it. -/
def field (names : List String) (absent : Option α) (last : Bool) (d : Decoder α) : Fields α where
  slots := [⟨names, d.read⟩]
  make expected position
    | .named members =>
      match occurrences names members with
      | (some (i, j), none) => Part.ofJson d i j
      | (some (i, j), some second) =>
        (fun a _ => a) <$> Part.ofJson d i j <*>
          (Part.complain second (.duplicateField (names.headD "")) : Part Unit)
      | (none, _) =>
        match absent with
        | some a => Part.pure a
        | none => Part.complain (members.length + position) (.missingField (names.headD ""))
    | .positional items =>
      match items[position]?, absent, last with
      | some j, _, _ => Part.ofJson d position j
      | none, some a, true => Part.pure a
      | none, _, _ => Part.complain position (.tooShort position expected)

/-- A field that must be there. -/
def required (name : String) (d : Decoder α) : Fields α := field [name] none false d

/-- A field with a value to fall back on. -/
def withDefault (names : List String) (fallback : α) (d : Decoder α) : Fields α :=
  field names (some fallback) true d

/-- A field that may be null or left out. -/
def optional (name : String) (d : Decoder α) : Fields (Option α) :=
  withDefault [name] none d.option

/-- A field that may be null; an object may leave it out. -/
def nullable (name : String) (d : Decoder α) : Fields (Option α) :=
  field [name] (some none) false d.option

end Fields

namespace Decoder

/-- What follows a list whose items have all been read. -/
def readListEnd (cs : List Char) : Except Fault (List Char) :=
  match skipGaps cs with
  | ']' :: rest => .ok rest
  | [] => .error (.ahead .endInList [])
  | ',' :: cs =>
    match skipGaps cs with
    | ']' :: cs => .error (.ahead .trailingComma (']' :: cs))
    | cs => .error (.ahead .trailingCharacters cs)
  | cs => .error (.ahead .trailingCharacters cs)

/-- The fields of a list on top of those already read, the last one first. -/
def readPositional (fuel room : Nat) :
    List Slot → (first : Bool) → List Json → List Char → Except TextError (List Json × List Char)
  | [], _, done, cs => do return (done, ← readListEnd cs)
  | slot :: slots, first, done, cs => do
    match ← nextItem first cs with
    | .done rest => return (done, rest)
    | .more cs =>
      let (j, cs) ← slot.read fuel room cs
      readPositional fuel room slots false (j :: done) cs

/-- The fields of an object on top of those already read, the last one first. A field that is given
again is refused by its key. -/
def readNamed (slots : List Slot) (fuel room : Nat) :
    (steps : Nat) → (first : Bool) → List (String × Json) → List Char →
      Except TextError (List (String × Json) × List Char)
  | 0, _, _, cs => throw (.fault (.ahead .endInObject cs))
  | steps + 1, first, done, cs => do
    match ← nextKey first cs with
    | .done rest => return (done, rest)
    | .more (key, cs) =>
      match slots.find? (·.names.contains key) with
      | none =>
        let cs ← readColon cs
        readNamed slots fuel room steps false done (← skipValue fuel cs)
      | some slot =>
        if done.any fun (k, _) => slot.names.contains k then
          throw (.shape (.duplicateField slot.name))
        let (j, cs) ← slot.read fuel room (← readColon cs)
        readNamed slots fuel room steps false ((key, j) :: done) cs

/-- A list ends with the last field. -/
def surplus (fields : Nat) : Record → Part Unit
  | .named _ => Part.pure ()
  | .positional items =>
    if items.length ≤ fields then Part.pure ()
    else Part.complain fields (.tooLong items.length)

/-- What the fields make of a record. A list with items behind the last field is too long. -/
def ofRecord (type : String) (fs : Fields α) (r : Record) : Except DecodeError α :=
  let n := fs.slots.length
  let elements := if n = 1 then "element" else "elements"
  match (fun a _ => a) <$> fs.make s!"struct {type} with {n} {elements}" 0 r <*> surplus n r with
  | .ok a => .ok a
  | .error c => .error c.error

/-- A decoder of records of one type, from an object or from a list of its fields. -/
def record (type : String) (fs : Fields α) : Decoder α :=
  judging
    (fun fuel room cs =>
      match skipGaps cs with
      | '[' :: cs => do
        let room ← enter room ('[' :: cs)
        let (items, rest) ← readPositional fuel room fs.slots true [] cs
        return (.array items.reverse, rest)
      | '\x7b' :: cs => do
        let room ← enter room ('\x7b' :: cs)
        let (members, rest) ← readNamed fs.slots fuel room fuel true [] cs
        return (.object members.reverse, rest)
      | cs => readHead cs)
    fun
      | .object members => ofRecord type fs (.named members)
      | .array items => ofRecord type fs (.positional items)
      | j => j.unexpected s!"struct {type}"

end Decoder
end Quorum
