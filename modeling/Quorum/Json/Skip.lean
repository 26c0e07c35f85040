import Quorum.Json.Lexeme
/-!
# Values that are passed over

A value that nobody asks for is checked for its form only: its numbers may have any size, its code
units need not pair up, and it may nest to any depth. The brackets that are open are kept in a list,
the innermost first.
-/
namespace Quorum.Json.Skip

/-- Digits of which there must be one. -/
def digits (cs : List Char) : Except Fault (List Char) :=
  match cs with
  | c :: rest =>
    if c.isDigit then .ok (rest.dropWhile Char.isDigit) else .error (.ahead .badNumber cs)
  | [] => .error (.before .badNumber [])

def power (cs : List Char) : Except Fault (List Char) :=
  match cs with
  | '+' :: cs | '-' :: cs => digits cs
  | cs => digits cs

/-- What may follow the whole part of a number, if `point` with places in front of the power. -/
def fraction (point : Bool) (cs : List Char) : Except Fault (List Char) :=
  match cs with
  | '.' :: cs => if point then do fraction false (← digits cs) else .ok ('.' :: cs)
  | 'e' :: cs | 'E' :: cs => power cs
  | cs => .ok cs
termination_by (if point then 1 else 0)
decreasing_by simp_all

/-- A number behind its sign. -/
def number (cs : List Char) : Except Fault (List Char) := do
  match cs with
  | '0' :: d :: cs =>
    if d.isDigit then throw (.ahead .badNumber (d :: cs)) else fraction true (d :: cs)
  | cs => fraction true (← digits cs)

/-- A string behind its opening quote. -/
def string : List Char → Except Fault (List Char)
  | [] | ['\\'] => .error (.before .endInString [])
  | '"' :: cs => .ok cs
  | '\\' :: 'u' :: h :: i :: j :: k :: cs =>
    match readUnit (h :: i :: j :: k :: cs) with
    | .ok _ => string cs
    | .error f => .error f
  | '\\' :: 'u' :: cs =>
    match readUnit cs with
    | .ok _ => .error (.before .endInString [])
    | .error f => .error f
  | '\\' :: c :: cs =>
    if (simpleEscape? c).isSome then string cs else .error (.ahead .badEscape (c :: cs))
  | c :: cs => if c.toNat < 32 then .error (.before .controlCharacter cs) else string cs

/-- Which kind of container is open. The causes of faults in it go by the kind. -/
inductive Bracket
  | list
  | object
deriving DecidableEq, Repr

namespace Bracket

def closing : Bracket → Char
  | list => ']'
  | object => '\x7d'

def endCause : Bracket → Cause
  | list => .endInList
  | object => .endInObject

def separatorCause : Bracket → Cause
  | list => .missingListSeparator
  | object => .missingObjectSeparator

end Bracket

/-- What comes next: a value, a key with its value, the first item of a container, or what follows
a value. -/
inductive Place
  | value
  | key
  | opened
  | behind
deriving DecidableEq, Repr

/-- Where the items of a container start. -/
def Bracket.item : Bracket → Place
  | list => .value
  | object => .key

/-- What is open around the place that has been reached, and what may come next there. -/
structure State where
  brackets : List Bracket
  place : Place
deriving DecidableEq, Repr

/-- What is left of the value starts at its first character that is no gap. -/
def value (brackets : List Bracket) (cs : List Char) : Except Fault (State × List Char) := do
  let behind : State := ⟨brackets, .behind⟩
  match cs with
  | [] => throw (.ahead .endInValue [])
  | 'n' :: cs => return (behind, ← readWord ['u', 'l', 'l'] cs)
  | 't' :: cs => return (behind, ← readWord ['r', 'u', 'e'] cs)
  | 'f' :: cs => return (behind, ← readWord ['a', 'l', 's', 'e'] cs)
  | '-' :: cs => return (behind, ← number cs)
  | '"' :: cs => return (behind, ← string cs)
  | '[' :: cs => return (⟨.list :: brackets, .opened⟩, cs)
  | '\x7b' :: cs => return (⟨.object :: brackets, .opened⟩, cs)
  | c :: cs =>
    if c.isDigit then return (behind, ← number (c :: cs))
    else throw (.ahead .missingValue (c :: cs))

def key (cs : List Char) : Except Fault (List Char) := do
  match cs with
  | [] => throw (.ahead .endInObject [])
  | '"' :: cs =>
    match skipGaps (← string cs) with
    | ':' :: cs => return cs
    | [] => throw (.ahead .endInObject [])
    | cs => throw (.ahead .missingColon cs)
  | cs => throw (.ahead .keyNotString cs)

/-- One step on. A container whose last item was followed by a comma has one more item. -/
def step (s : State) (cs : List Char) : Except Fault (State × List Char) :=
  let cs := skipGaps cs
  match s.place, s.brackets with
  | .value, brackets => value brackets cs
  | .key, brackets => (key cs).map (⟨brackets, .value⟩, ·)
  | _, [] => .ok (s, cs)
  | place, b :: outer =>
    match cs with
    | [] => .error (.ahead b.endCause [])
    | c :: rest =>
      if c = b.closing then .ok (⟨outer, .behind⟩, rest)
      else if place = .opened then .ok (⟨b :: outer, b.item⟩, c :: rest)
      else if c = ',' then .ok (⟨b :: outer, b.item⟩, rest)
      else .error (.ahead b.separatorCause (c :: rest))

/-- Takes steps until nothing is open any more. -/
def run : (fuel : Nat) → State → List Char → Except Fault (List Char)
  | 0, _, cs => .error (.ahead .endInValue cs)
  | fuel + 1, s, cs =>
    if s = ⟨[], .behind⟩ then .ok cs
    else match step s cs with
      | .ok (s, cs) => run fuel s cs
      | .error f => .error f

end Skip

/-- What follows a value, which takes at most `fuel` steps to pass. -/
def skipValue (fuel : Nat) (cs : List Char) : Except Fault (List Char) :=
  Skip.run fuel ⟨[], .value⟩ cs

end Quorum.Json
