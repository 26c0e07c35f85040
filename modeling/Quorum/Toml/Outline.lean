import Quorum.Toml.Basic
/-!
# Tables under construction

A document builds its tables piece by piece: by headers, by headers of tables inside them, and by
dotted keys. Which of these made a table decides what may still be added to it. A header may open a
table once, and only one that was merely implied until then; a dotted key may pass through tables
that were not opened by a header and ends in a table made by dotted keys.
-/
namespace Quorum.Toml

/-- How a table came to be. It decides whether a header may still open the table and whether dotted
keys may add to it. -/
inductive Origin
  | header
  | implied
  | dotted
deriving DecidableEq, Repr

/-- A piece of a document. Members stand in the order in which they were added, and of a list of
tables the last one comes first. -/
inductive Outline
  | value (v : Value)
  | array (items : List Outline)
  /-- A table between braces. -/
  | closed (members : List (String × Outline))
  | table (origin : Origin) (members : List (String × Outline))
  | tables (items : List (List (String × Outline)))
deriving Repr

namespace Outline

/-- The members of a table in the making, in the order they were met. -/
abbrev Members := List (String × Outline)

/-- The members with one put under its key, at the end if the key is new. -/
def put (key : String) (o : Outline) : Members → Members
  | [] => [(key, o)]
  | (k, old) :: ms => if k = key then (key, o) :: ms else (k, old) :: put key o ms

/-- The members with one put under a key where there is none yet. -/
def addNew (key : String) (o : Outline) (ms : Members) : Option Members :=
  if (ms.lookup key).isSome then none else some (put key o ms)

/-- A value put under a dotted key. `inside` tells how the table was made that part of the key has
led to. The last table of a list is one that a header made, but a key may pass through it. -/
def addDotted (o : Outline) (inside : Option Origin) : List String → Members → Option Members
  | [], _ => none
  | [key], ms => if inside.all (· = .dotted) then addNew key o ms else none
  | key :: keys, ms =>
    match ms.lookup key with
    | none => do
      let inner ← addDotted o (some .dotted) keys []
      return put key (.table .dotted inner) ms
    | some (.table origin inner) =>
      if origin = .header then none
      else do
        let inner ← addDotted o (some origin) keys inner
        return put key (.table origin inner) ms
    | some (.tables (last :: others)) => do
      let last ← addDotted o (some .header) keys last
      return put key (.tables (last :: others)) ms
    | some _ => none

/-- A change made at the table a header's path leads to. Tables on the way that are not there yet
are implied, and a list of tables leads on through its last one. -/
def within (change : Members → Option Members) : List String → Members → Option Members
  | [], ms => change ms
  | key :: keys, ms =>
    match ms.lookup key with
    | none => do
      let inner ← within change keys []
      return put key (.table .implied inner) ms
    | some (.table origin inner) => do
      let inner ← within change keys inner
      return put key (.table origin inner) ms
    | some (.tables (last :: others)) => do
      let last ← within change keys last
      return put key (.tables (last :: others)) ms
    | some _ => none

/-- A table that was implied moves to the end when it is opened. -/
def openTable (key : String) (ms : Members) : Option Members :=
  match ms.lookup key with
  | none => some (put key (.table .header []) ms)
  | some (.table .implied inner) =>
    some (put key (.table .header inner) (ms.filter (·.1 != key)))
  | some _ => none

/-- Starts a further item of a list of tables. -/
def openItem (key : String) (ms : Members) : Option Members :=
  match ms.lookup key with
  | none => some (put key (.tables [[]]) ms)
  | some (.tables items) => some (put key (.tables ([] :: items)) ms)
  | some _ => none

mutual
/-- The value of a piece. If `revealing`, a table whose first key says so stands for the moment that
is spelled there, and one that spells none has no value. -/
def toValue? (revealing : Bool) : Outline → Option Value
  | value v => some v
  | array items => .array <$> itemsToValues? revealing items
  | closed members | table _ members => tableToValue? revealing members
  | tables items => .array <$> tablesToValues? revealing items []
def itemsToValues? (revealing : Bool) : List Outline → Option (List Value)
  | [] => some []
  | o :: os => do return (← toValue? revealing o) :: (← itemsToValues? revealing os)
/-- The tables in the order of the document. -/
def tablesToValues? (revealing : Bool) : List Members → List Value → Option (List Value)
  | [], done => some done
  | ms :: items, done => do
    tablesToValues? revealing items ((← tableToValue? revealing ms) :: done)
def tableToValue? (revealing : Bool) : Members → Option Value
  | [] => some (.table [])
  | (key, o) :: ms => do
    let v ← toValue? revealing o
    if revealing && key = Moment.key then v.ofSpelling?
    else return .table (putEntry key v (← membersToValues? revealing ms))
/-- The members in key order. The order of the document matters only for the first key, which may
say that the table is a moment. -/
def membersToValues? (revealing : Bool) : Members → Option (List (String × Value))
  | [] => some []
  | (key, o) :: ms => do
    let v ← toValue? revealing o
    return putEntry key v (← membersToValues? revealing ms)
end

end Outline
end Quorum.Toml
