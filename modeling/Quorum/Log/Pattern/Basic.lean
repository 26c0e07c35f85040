/-!
# Patterns of field values

A pattern is a regular expression. Only whether it can be used matters here, not what it matches. It
is used without tables of characters, so that what would need one is refused: the case of letters
beyond ASCII, the shorthand classes and the edges of words, unless Unicode is turned off. With
Unicode turned off, what could match a part of a character is refused.
-/
namespace Quorum.Log

/-- A character of a pattern, which may be written as the code of an octet. -/
structure Letter where
  char : Char
  asOctet : Bool := false
deriving DecidableEq, Repr

/-- A set of characters in brackets. -/
inductive CharSet
  | empty
  | letter (l : Letter)
  | range (first last : Letter)
  /-- A class by its name. -/
  | named (negated : Bool)
  /-- The digits, the blanks, or the characters of words. -/
  | shorthand (negated : Bool)
  | nested (negated : Bool) (s : CharSet)
  | union (parts : List CharSet)
  /-- What two sets have in common, or what only one of them has. -/
  | combined (left right : CharSet)
deriving Repr

/-- Options that are turned on and off, each by its letter. -/
structure Options where
  on : List Char := []
  off : List Char := []
deriving DecidableEq, Repr

/-- A pattern as it is read, with the parts that only matter for whether it can be compiled. -/
inductive Pattern
  | empty
  | letter (l : Letter)
  | dot
  /-- The start or the end of a line or of the text. -/
  | anchor
  /-- An edge of a word. -/
  | boundary
  | shorthand (negated : Bool)
  | set (negated : Bool) (s : CharSet)
  /-- Options for what follows in the same group. -/
  | options (o : Options)
  | repeated (p : Pattern)
  | group (name : Option String) (o : Options) (p : Pattern)
  | sequence (ps : List Pattern)
  | choice (ps : List Pattern)
deriving Repr

/-- Whether an option holds, given whether it held so far. -/
def Options.holds (o : Options) (option : Char) (sofar : Bool) : Bool :=
  if o.on.contains option then true else if o.off.contains option then false else sofar

/-- What decides which parts of a pattern can be used. -/
structure Mode where
  anyCase : Bool := false
  unicode : Bool := true
deriving DecidableEq, Repr

/-- The mode behind a group of options. What the options do not mention stays as it was. -/
def Mode.change (m : Mode) (o : Options) : Mode :=
  { anyCase := o.holds 'i' m.anyCase, unicode := o.holds 'u' m.unicode }

namespace CharSet

def ofParts : List CharSet → CharSet
  | [] => empty
  | [s] => s
  | parts => union parts

mutual

/-- How deeply sets are nested. Several parts side by side are one level, as is a pair of sets. -/
def depth : CharSet → Nat
  | nested _ s => s.depth + 1
  | union parts => depthOfAll parts + 1
  | combined left right => max left.depth right.depth + 1
  | _ => 0

def depthOfAll : List CharSet → Nat
  | [] => 0
  | s :: parts => max s.depth (depthOfAll parts)

end

/-- A character in a set needs its other case, or else, without Unicode, must be of ASCII. -/
def usesLetter (m : Mode) (l : Letter) : Bool :=
  if m.unicode then !m.anyCase else l.char.toNat ≤ 0x7F

/-- A complement is one of octets where Unicode is turned off. -/
def usesSign (m : Mode) (negated : Bool) : Bool := m.unicode || !negated

mutual

def isUsable (m : Mode) : CharSet → Bool
  | empty => true
  | letter l => usesLetter m l
  | range first last => usesLetter m first && usesLetter m last
  | named negated => usesSign m negated && !(m.unicode && m.anyCase)
  | shorthand negated => !m.unicode && !negated
  | nested negated s => usesSign m negated && s.isUsable m
  | union parts => areUsable m parts
  | combined left right => left.isUsable m && right.isUsable m

def areUsable (m : Mode) : List CharSet → Bool
  | [] => true
  | s :: parts => s.isUsable m && areUsable m parts

end

end CharSet

namespace Pattern

def ofSequence : List Pattern → Pattern
  | [] => empty
  | [p] => p
  | ps => sequence ps

def ofChoice : List Pattern → Pattern
  | [p] => p
  | ps => choice ps

mutual

/-- How deeply a pattern is nested. Several patterns side by side are one level. -/
def depth : Pattern → Nat
  | set _ s => s.depth + 1
  | repeated p => p.depth + 1
  | group _ _ p => p.depth + 1
  | sequence ps => depthOfAll ps + 1
  | choice ps => depthOfAll ps + 1
  | _ => 0

def depthOfAll : List Pattern → Nat
  | [] => 0
  | p :: ps => max p.depth (depthOfAll ps)

end

mutual

/-- The names of the groups, in order. A name may stand for one group only. -/
def names : Pattern → List String
  | repeated p => p.names
  | group name _ p => name.toList ++ p.names
  | sequence ps => namesOfAll ps
  | choice ps => namesOfAll ps
  | _ => []

def namesOfAll : List Pattern → List String
  | [] => []
  | p :: ps => p.names ++ namesOfAll ps

end

mutual

/-- The mode that holds behind a pattern, if all of it can be used. Options last to the end of their
group, through all choices. -/
def modeAfter? (m : Mode) : Pattern → Option Mode
  | empty => some m
  | letter l =>
    let usable := if m.unicode then !m.anyCase else !l.asOctet || l.char.toNat ≤ 0x7F
    if usable then some m else none
  | dot => if m.unicode then some m else none
  | anchor => some m
  | boundary => if m.unicode then none else some m
  | shorthand negated => if m.unicode || negated then none else some m
  | set negated s => if CharSet.usesSign m negated && s.isUsable m then some m else none
  | options o => some (m.change o)
  | repeated p => p.modeAfter? m
  | group _ o p => (p.modeAfter? (m.change o)).map fun _ => m
  | sequence ps => modeAfterAll? m ps
  | choice ps => modeAfterAll? m ps

def modeAfterAll? (m : Mode) : List Pattern → Option Mode
  | [] => some m
  | p :: ps => (p.modeAfter? m).bind fun m => modeAfterAll? m ps

end

/-- How deep a pattern may nest before it is refused. -/
def maxDepth : Nat := 250

/-- Whether a pattern can be used: it is not too deep, its groups have different names, and every
part of it can be used where it stands. -/
def isUsable (p : Pattern) : Bool :=
  p.depth ≤ maxDepth && decide p.names.Nodup && (p.modeAfter? {}).isSome

end Pattern
end Quorum.Log
