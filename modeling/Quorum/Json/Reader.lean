import Quorum.Json.Lexeme
/-!
# Reading JSON values

A value is read off the front of a text, and a whole text is one value with gaps around it.
Containers may nest to a bounded depth; a bracket that opens one more is a fault of its own, before
anything behind it is looked at.
-/
namespace Quorum.Json

/-- The next item of a container, or what follows the container. -/
inductive Next (α : Type)
  | more (item : α)
  | done (rest : List Char)

/-- The text from the next item of a list on. -/
def nextItem (first : Bool) (cs : List Char) : Except Fault (Next (List Char)) :=
  match first, skipGaps cs with
  | _, [] => .error (.ahead .endInList [])
  | _, ']' :: rest => .ok (.done rest)
  | true, cs => .ok (.more cs)
  | false, ',' :: cs =>
    match skipGaps cs with
    | [] => .error (.ahead .endInValue [])
    | ']' :: cs => .error (.ahead .trailingComma (']' :: cs))
    | cs => .ok (.more cs)
  | false, cs => .error (.ahead .missingListSeparator cs)

/-- A key, which is a string, and the text behind it. -/
def readKey : List Char → Except Fault (String × List Char)
  | '"' :: cs => readString cs
  | cs => .error (.ahead .keyNotString cs)

/-- The key of the next member of an object, and the text behind it. -/
def nextKey (first : Bool) (cs : List Char) : Except Fault (Next (String × List Char)) :=
  match first, skipGaps cs with
  | _, [] => .error (.ahead .endInObject [])
  | _, '\x7d' :: rest => .ok (.done rest)
  | true, cs => (readKey cs).map .more
  | false, ',' :: cs =>
    match skipGaps cs with
    | [] => .error (.ahead .endInValue [])
    | '\x7d' :: cs => .error (.ahead .trailingComma ('\x7d' :: cs))
    | cs => (readKey cs).map .more
  | false, cs => .error (.ahead .missingObjectSeparator cs)

/-- What follows the colon behind a key. -/
def readColon (cs : List Char) : Except Fault (List Char) :=
  match skipGaps cs with
  | ':' :: cs => .ok cs
  | [] => .error (.ahead .endInObject [])
  | cs => .error (.ahead .missingColon cs)

/-- The items of a list on top of those already read, the last one first. Faults between the items
become errors by `ofFault`. -/
def readItems (ofFault : Fault → ε) (read : List Char → Except ε (Json × List Char)) :
    (fuel : Nat) → (first : Bool) → List Json → List Char → Except ε (List Json × List Char)
  | 0, _, _, cs => .error (ofFault (.ahead .endInList cs))
  | fuel + 1, first, done, cs => do
    match ← (nextItem first cs).mapError ofFault with
    | .done rest => return (done, rest)
    | .more cs =>
      let (j, cs) ← read cs
      readItems ofFault read fuel false (j :: done) cs

/-- The members of an object on top of those already read, the last one first. -/
def readMembers (ofFault : Fault → ε) (read : List Char → Except ε (Json × List Char)) :
    (fuel : Nat) → (first : Bool) → List (String × Json) → List Char →
      Except ε (List (String × Json) × List Char)
  | 0, _, _, cs => .error (ofFault (.ahead .endInObject cs))
  | fuel + 1, first, done, cs => do
    match ← (nextKey first cs).mapError ofFault with
    | .done rest => return (done, rest)
    | .more (key, cs) =>
      let (j, cs) ← read (← (readColon cs).mapError ofFault)
      readMembers ofFault read fuel false ((key, j) :: done) cs

/-- A value in which `room` containers may be open at once, none of more than `fuel` items. -/
def readValue (fuel : Nat) : (room : Nat) → List Char → Except Fault (Json × List Char)
  | room, cs =>
    match skipGaps cs, room with
    | '[' :: cs, 0 => .error (.ahead .tooDeep ('[' :: cs))
    | '\x7b' :: cs, 0 => .error (.ahead .tooDeep ('\x7b' :: cs))
    | '[' :: cs, room + 1 => do
      let (items, rest) ← readItems id (readValue fuel room) fuel true [] cs
      return (.array items.reverse, rest)
    | '\x7b' :: cs, room + 1 => do
      let (members, rest) ← readMembers id (readValue fuel room) fuel true [] cs
      return (.object members.reverse, rest)
    | cs, _ => readHead cs

/-- How many containers may be open at once. -/
def maxDepth : Nat := 127

/-- Nothing but gaps may follow the value of a text. -/
def expectEnd (cs : List Char) : Except Fault Unit :=
  match skipGaps cs with
  | [] => .ok ()
  | cs => .error (.ahead .trailingCharacters cs)

/-- The value of a text, or its first fault. -/
def parse (text : String) : Except Fault Json := do
  let cs := text.toList
  let (j, rest) ← readValue (cs.length + 1) maxDepth cs
  expectEnd rest
  return j

end Quorum.Json
