import Quorum.Toml.Outline
import Quorum.Toml.Quoted
import Quorum.Toml.Word
/-!
# Reading TOML text

A text that is no TOML has no value; what is wrong with it does not matter. Containers nest and
keys are dotted to a depth below eighty.
-/
namespace Quorum.Toml

/-- How many parts a dotted key may have, and how many values may be open around a value. -/
def maxDepth : Nat := 79

def skipSpaces (cs : List Char) : List Char := cs.dropWhile Quoted.isSpace

/-- A comment, if there is one, up to the end of its line. -/
def skipComment : List Char → List Char
  | '#' :: cs => cs.dropWhile Quoted.isPlain
  | cs => cs

/-- What follows the end of a line, which may be the end of the text. -/
def endOfLine? (cs : List Char) : Option (List Char) :=
  match skipComment (skipSpaces cs) with
  | [] => some []
  | cs => Quoted.lineBreak? cs

theorem length_dropWhile_le (p : Char → Bool) (cs : List Char) :
    (cs.dropWhile p).length ≤ cs.length :=
  (List.dropWhile_suffix p).length_le

/-- Spaces, line breaks and comments taken off. -/
def skipGaps : List Char → List Char
  | '#' :: cs => skipGaps (cs.dropWhile Quoted.isPlain)
  | '\r' :: '\n' :: cs => skipGaps cs
  | c :: cs => if Quoted.isSpace c || c = '\n' then skipGaps cs else c :: cs
  | [] => []
termination_by cs => cs.length
decreasing_by
  · have := length_dropWhile_le Quoted.isPlain cs; simp only [List.length_cons]; omega
  all_goals simp only [List.length_cons]; omega

/-- What a key may be made of without quotes. -/
def isKeyChar (c : Char) : Bool := c.isAlphanum || c = '_' || c = '-'

/-- A key, with or without quotes. A quoted one may hold anything, dots as well. -/
def key? (cs : List Char) : Option (String × List Char) :=
  match cs with
  | '"' :: _ | '\'' :: _ => Quoted.short? cs
  | _ =>
    match cs.takeWhile isKeyChar with
    | [] => none
    | name => some (String.ofList name, cs.dropWhile isKeyChar)

/-- The parts of a dotted key, at most `room` of them, and what follows the spaces behind it. -/
def dottedKey? : (room : Nat) → List Char → Option (List String × List Char)
  | 0, _ => none
  | room + 1, cs => do
    let (key, cs) ← key? (skipSpaces cs)
    match skipSpaces cs with
    | '.' :: cs => do
      let (keys, cs) ← dottedKey? room cs
      return (key :: keys, cs)
    | cs => return ([key], cs)

mutual
/-- `room` is how many containers may still be opened. -/
def value? : (fuel room : Nat) → List Char → Option (Outline × List Char)
  | 0, _, _ => none
  | fuel + 1, room, cs =>
    match cs with
    | '"' :: _ | '\'' :: _ => do
      let (s, cs) ← Quoted.read? cs
      return (.value (.string s), cs)
    | '[' :: cs => if room = 0 then none else items? fuel (room - 1) [] cs
    | '\x7b' :: cs =>
      if room = 0 then none
      else match skipSpaces cs with
        | '\x7d' :: cs => some (.closed [], cs)
        | cs => members? fuel (room - 1) [] cs
    | _ => do
      let (v, cs) ← Word.read? cs
      return (.value v, cs)
/-- The items of an array behind those already read, the last one first. -/
def items? : (fuel room : Nat) → List Outline → List Char → Option (Outline × List Char)
  | 0, _, _, _ => none
  | fuel + 1, room, done, cs =>
    match skipGaps cs with
    | ']' :: cs => some (.array done.reverse, cs)
    | cs =>
      match value? fuel room cs with
      | none => none
      | some (v, cs) =>
        match skipGaps cs with
        | ',' :: cs => items? fuel room (v :: done) cs
        | ']' :: cs => some (.array (v :: done).reverse, cs)
        | _ => none
/-- The members of a table on one line, added to those already read. -/
def members? : (fuel room : Nat) → Outline.Members → List Char → Option (Outline × List Char)
  | 0, _, _, _ => none
  | fuel + 1, room, done, cs =>
    match dottedKey? maxDepth cs with
    | some (keys, '=' :: cs) =>
      match value? fuel room (skipSpaces cs) with
      | none => none
      | some (v, cs) =>
        match Outline.addDotted v none keys done, skipSpaces cs with
        | some done, ',' :: cs => members? fuel room done cs
        | some done, '\x7d' :: cs => some (.closed done, cs)
        | _, _ => none
    | _ => none
end

/-- A document so far: its tables and the path of the header that the next line belongs to. -/
structure Draft where
  members : Outline.Members := []
  path : List String := []

namespace Draft

/-- Changes the table under the parents of a header, with the last part of its path. -/
def openHeader (d : Draft) (enter : String → Outline.Members → Option Outline.Members)
    (path : List String) : Option Draft := do
  let key ← path.getLast?
  return ⟨← Outline.within (enter key) path.dropLast d.members, path⟩

/-- A header behind its opening bracket or brackets, and its end. -/
def header? (d : Draft) : List Char → Option (Draft × List Char)
  | '[' :: cs => do
    let (path, cs) ← dottedKey? maxDepth cs
    let ']' :: ']' :: cs := cs | none
    return (← d.openHeader Outline.openItem path, ← endOfLine? cs)
  | cs => do
    let (path, cs) ← dottedKey? maxDepth cs
    let ']' :: cs := cs | none
    return (← d.openHeader Outline.openTable path, ← endOfLine? cs)

/-- A key with its value. Dots within the key lead into tables. -/
def setting? (fuel : Nat) (d : Draft) (cs : List Char) : Option (Draft × List Char) := do
  let (keys, cs) ← dottedKey? maxDepth cs
  let '=' :: cs := cs | none
  let (v, cs) ← value? fuel maxDepth (skipSpaces cs)
  let cs ← endOfLine? cs
  return (⟨← Outline.within (Outline.addDotted v none keys) d.path d.members, d.path⟩, cs)

/-- One line, and what follows it. Lines are read one after the other, each into the draft that the
lines before have left. -/
def line? (fuel : Nat) (d : Draft) (cs : List Char) : Option (Draft × List Char) :=
  match skipSpaces cs with
  | '[' :: cs => d.header? cs
  | cs =>
    match endOfLine? cs with
    | some cs => some (d, cs)
    | none => d.setting? fuel cs

/-- The lines of a document one after the other, each on top of the draft that those before it have
made. -/
def lines? : (fuel : Nat) → Draft → List Char → Option Draft
  | 0, _, _ => none
  | _, d, [] => some d
  | fuel + 1, d, cs =>
    match d.line? fuel cs with
    | none => none
    | some (d, cs) => lines? fuel d cs

end Draft

/-- The tables that a text describes. A byte order mark at its start is no part of it. -/
def outline? (text : String) : Option Outline :=
  let cs := match text.toList with
    | '\uFEFF' :: cs => cs
    | cs => cs
  (Draft.lines? (2 * cs.length + 3) {} cs).map fun d => .table .header d.members

/-- The value of a text. If `revealing`, tables that say they are moments are. -/
def parse? (revealing : Bool) (text : String) : Option Value :=
  (outline? text).bind (Outline.toValue? revealing)

end Quorum.Toml
