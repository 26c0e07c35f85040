import Quorum.Log.Pattern.Basic
import Quorum.Text.Alphanumeric
import Quorum.Text.Blank
import Quorum.Text.Hex
/-!
# Reading patterns

A pattern is read from the front. Spread out (option `x`), it may hold blanks and notes from `#` to
the end of a line, which stand for nothing. Counted repetition, references to groups, looking around
and classes of Unicode properties are no part of patterns.
-/
namespace Quorum.Log
open Text

namespace Pattern

/-- What follows blanks and notes. -/
def skipNotes : (inNote : Bool) → List Char → List Char
  | _, [] => []
  | true, c :: cs => skipNotes (c ≠ '\n') cs
  | false, c :: cs =>
    if c = '#' then skipNotes true cs else if isBlank c then skipNotes false cs else c :: cs

/-- What lies between the parts of a pattern in which blanks and remarks do not count. -/
def skip (spread : Bool) (cs : List Char) : List Char := if spread then skipNotes false cs else cs

/-- A code in so many hexadecimal digits, behind those that give `n`. -/
def readCode (spread : Bool) : (digits n : Nat) → List Char → Option (Nat × List Char)
  | 0, n, cs => some (n, cs)
  | digits + 1, n, cs =>
    match skip spread cs with
    | [] => none
    | c :: cs => (Hex.value? c).bind fun d => readCode spread digits (16 * n + d) cs

/-- A character by its number, given in a fixed number of digits. -/
def readCoded (spread : Bool) (digits : Nat) (cs : List Char) : Option (Pattern × List Char) :=
  (readCode spread digits 0 cs).bind fun (n, cs) =>
    if n.isValidChar then some (.letter ⟨Char.ofNat n, digits = 2⟩, cs) else none

/-- What stands behind a backslash. Letters and digits have a meaning or none, and other characters
of ASCII stand for themselves. -/
def readEscape (spread : Bool) : List Char → Option (Pattern × List Char)
  | [] => none
  | c :: cs =>
    if c = 'x' then readCoded spread 2 cs
    else if c = 'u' then readCoded spread 4 cs
    else if c = 'U' then readCoded spread 8 cs
    else if ['d', 's', 'w'].contains c then some (.shorthand false, cs)
    else if ['D', 'S', 'W'].contains c then some (.shorthand true, cs)
    else if ['A', 'z'].contains c then some (.anchor, cs)
    else if ['b', 'B', '<', '>'].contains c then some (.boundary, cs)
    else match [('a', '\x07'), ('f', '\x0c'), ('t', '\t'), ('n', '\n'), ('r', '\r'),
        ('v', '\x0b')].lookup c with
      | some control => some (.letter ⟨control, false⟩, cs)
      | none =>
        if c.toNat ≤ 0x7F && !c.isAlphanum then some (.letter ⟨c, false⟩, cs) else none

def classNames : List String :=
  ["alnum", "alpha", "ascii", "blank", "cntrl", "digit", "graph", "lower", "print", "punct",
    "space", "upper", "word", "xdigit"]

/-- A class by its name, behind the bracket that opens it. -/
def readNamed? : List Char → Option (CharSet × List Char)
  | ':' :: cs =>
    let (negated, cs) := match cs with
      | '^' :: cs => (true, cs)
      | cs => (false, cs)
    let name := String.ofList (cs.takeWhile (· ≠ ':'))
    match cs.dropWhile (· ≠ ':') with
    | ':' :: ']' :: rest => if classNames.contains name then some (.named negated, rest) else none
    | _ => none
  | _ => none

/-- A character or a class in a set, where nothing but the backslash is special. -/
def readMember (spread : Bool) : List Char → Option (CharSet × List Char)
  | [] => none
  | '\\' :: cs =>
    match readEscape spread cs with
    | some (.letter l, cs) => some (.letter l, cs)
    | some (.shorthand negated, cs) => some (.shorthand negated, cs)
    | _ => none
  | c :: cs => some (.letter ⟨c, false⟩, cs)

/-- The next character that counts. The look ahead passes a single `#`, and when nothing is left
behind the blanks it sees the first of them. -/
def ahead? (spread : Bool) (cs : List Char) : Option Char :=
  if spread then
    let next := match trimLeft cs with
      | '#' :: cs => trimLeft cs
      | cs => cs
    next.head?.or cs.head?
  else cs.head?

/-- A member of a set, or a range of them. A dash in front of a closing bracket or of another dash
makes no range. -/
def readRange (spread : Bool) (cs : List Char) : Option (CharSet × List Char) := do
  let (first, cs) ← readMember spread cs
  match skip spread cs with
  | [] => none
  | '-' :: after =>
    if ahead? spread after = some ']' || ahead? spread after = some '-' then
      return (first, '-' :: after)
    else
      let (last, cs) ← readMember spread (skip spread after)
      match first, last with
      | .letter a, .letter b =>
        if a.char.toNat ≤ b.char.toNat then return (.range a b, cs) else none
      | _, _ => none
  | cs => return (first, cs)

/-- Whether a set is a complement, behind the bracket that opens it. -/
def readSign (spread : Bool) (cs : List Char) : Bool × List Char :=
  match skip spread cs with
  | '^' :: cs => (true, cs)
  | cs => (false, cs)

/-- A set up to the bracket that closes it, given the set before the last operator and the parts
read since, the last one first. While the set is leading, a dash is a character, and so is a closing
bracket that comes first of all. -/
def readSet (spread : Bool) : (fuel : Nat) → (leading : Bool) → (left : Option CharSet) →
    (parts : List CharSet) → List Char → Option (CharSet × List Char)
  | 0, _, _, _, _ => none
  | fuel + 1, leading, left, parts, cs =>
    match skip spread cs with
    | [] => none
    | '-' :: cs =>
      if leading then readSet spread fuel true left (.letter ⟨'-', false⟩ :: parts) cs
      else if cs.head? = some '-' then
        readSet spread fuel false (some (operand left parts)) [] (cs.drop 1)
      else do
        let (part, cs) ← readRange spread ('-' :: cs)
        readSet spread fuel false left (part :: parts) cs
    | ']' :: cs =>
      if leading && parts.isEmpty then readSet spread fuel false left [.letter ⟨']', false⟩] cs
      else some (operand left parts, cs)
    | '[' :: cs =>
      match readNamed? cs with
      | some (part, cs) => readSet spread fuel false left (part :: parts) cs
      | none => do
        let (negated, cs) := readSign spread cs
        let (s, cs) ← readSet spread fuel true none [] cs
        readSet spread fuel false left (.nested negated s :: parts) cs
    | '&' :: '&' :: cs | '~' :: '~' :: cs =>
      readSet spread fuel false (some (operand left parts)) [] cs
    | cs => do
      let (part, cs) ← readRange spread cs
      readSet spread fuel false left (part :: parts) cs
where
  operand (left : Option CharSet) (parts : List CharSet) : CharSet :=
    let right := CharSet.ofParts parts.reverse
    match left with
    | none => right
    | some left => .combined left right

def isGroupName : List Char → Bool
  | [] => false
  | c :: cs =>
    (c = '_' || isAlphabetic c) &&
      cs.all fun c => ['_', '.', '[', ']'].contains c || isAlphanumeric c

/-- The letters of options: ignore case, lines apart, dot for all, swap greed, Unicode, line feeds,
and spread out. A dash comes before those that are turned off. -/
def optionLetters : List Char := ['i', 'm', 's', 'U', 'u', 'R', 'x', '-']

/-- Options are given once each, and a dash is followed by one. -/
def options? (letters : List Char) : Option Options :=
  if letters.all optionLetters.contains && decide letters.Nodup && letters.getLast? ≠ some '-' then
    some ⟨letters.takeWhile (· ≠ '-'), (letters.dropWhile (· ≠ '-')).drop 1⟩
  else none

/-- What stands behind an opening bracket. -/
inductive Opening
  | options (o : Options)
  | group (name : Option String) (o : Options)
deriving DecidableEq, Repr

/-- The name of a group. Each may be given once. -/
def readName (cs : List Char) : Option (Opening × List Char) :=
  let name := cs.takeWhile (· ≠ '>')
  match cs.dropWhile (· ≠ '>') with
  | '>' :: rest => if isGroupName name then some (.group (String.ofList name) {}, rest) else none
  | _ => none

def readOptions (cs : List Char) : Option (Opening × List Char) := do
  let letters := cs.takeWhile fun c => c ≠ ':' && c ≠ ')'
  let o ← options? letters
  match cs.dropWhile fun c => c ≠ ':' && c ≠ ')' with
  | ':' :: rest => return (.group none o, rest)
  | ')' :: rest => if letters.isEmpty then none else return (.options o, rest)
  | _ => none

def readOpening (spread : Bool) (cs : List Char) : Option (Opening × List Char) :=
  match skip spread cs with
  | '?' :: 'P' :: '<' :: cs | '?' :: '<' :: cs => readName cs
  | '?' :: cs => readOptions cs
  | cs => some (.group none {}, cs)

/-- A pattern up to the end of its group, given the choices before this one and what has been read
of it, the last ones first. Anything but options can be repeated. -/
def readChoices : (fuel : Nat) → (spread : Bool) → (choices done : List Pattern) → List Char →
    Option (Pattern × List Char)
  | 0, _, _, _, _ => none
  | fuel + 1, spread, choices, done, cs =>
    match skip spread cs with
    | [] => some (ofChoice (ofSequence done.reverse :: choices).reverse, [])
    | ')' :: cs => some (ofChoice (ofSequence done.reverse :: choices).reverse, ')' :: cs)
    | '|' :: cs => readChoices fuel spread (ofSequence done.reverse :: choices) [] cs
    | '(' :: cs => do
      match ← readOpening spread cs with
      | (.options o, cs) =>
        readChoices fuel (o.holds 'x' spread) choices (.options o :: done) cs
      | (.group name o, cs) =>
        match ← readChoices fuel (o.holds 'x' spread) [] [] cs with
        | (p, ')' :: cs) => readChoices fuel spread choices (.group name o p :: done) cs
        | _ => none
    | '[' :: cs => do
      let (negated, cs) := readSign spread cs
      let (s, cs) ← readSet spread (cs.length + 1) true none [] cs
      readChoices fuel spread choices (.set negated s :: done) cs
    | '\x7b' :: _ => none
    | '\\' :: cs => do
      let (p, cs) ← readEscape spread cs
      readChoices fuel spread choices (p :: done) cs
    | '.' :: cs => readChoices fuel spread choices (.dot :: done) cs
    | c :: cs =>
      if ['*', '+', '?'].contains c then
        let cs := if cs.head? = some '?' then cs.drop 1 else cs
        match done with
        | [] | .options _ :: _ => none
        | p :: done => readChoices fuel spread choices (.repeated p :: done) cs
      else
        let p := if c = '^' || c = '$' then anchor else letter ⟨c, false⟩
        readChoices fuel spread choices (p :: done) cs

/-- The pattern that a text is. -/
def parse? (cs : List Char) : Option Pattern :=
  match readChoices (cs.length + 1) false [] [] cs with
  | some (p, []) => some p
  | _ => none

/-- Whether the text is a pattern that can be compiled. -/
def isValid (cs : List Char) : Bool := (parse? cs).any isUsable

end Pattern
end Quorum.Log
