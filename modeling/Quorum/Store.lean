import Quorum.Integer
import Quorum.Task
/-!
# The store of tasks

Tasks are stored by key. A write says which version it was made from and fails if another write
came in between; a successful one raises the version. Specification writes keep the stored status,
status writes keep all but the status and the annotations.
-/
namespace Quorum

/-- The tasks by key. Each one lies under its own key, which is why a look-up can be trusted to
return the task that was asked for. -/
structure Store where
  tasks : SortedMap Task
  keyed : ∀ key t, tasks.get? key = some t → t.key = key

/-- Why a call was turned down. A conflict says which version the write was made from and which one
it met. -/
inductive StoreError
  | notFound (key : String)
  | alreadyExists (key : String)
  | conflict (key : String) (expected actual : Nat)
deriving DecidableEq, Repr

def StoreError.message : StoreError → String
  | notFound key => s!"approval task {key} not found"
  | alreadyExists key => s!"approval task {key} already exists"
  | conflict key expected actual =>
    s!"conflict writing approval task {key}: expected resource version {expected}, found {actual}"

namespace Store

def empty : Store := ⟨.empty, by simp⟩

instance : Inhabited Store := ⟨empty⟩

def get? (s : Store) (key : String) : Option Task := s.tasks.get? key

/-- The task at a key, or the error that callers pass on. -/
def get (s : Store) (key : String) : Except StoreError Task :=
  match s.get? key with
  | some t => .ok t
  | none => .error (.notFound key)

/-- All tasks by key. Two stores with the same look-ups list the same tasks in the same order. -/
def list (s : Store) : List Task := s.tasks.values

def size (s : Store) : Nat := s.tasks.entries.length

/-- Puts a task where it belongs, over the one that may be there. Writers do not call this:
`create`, `update` and `updateStatus` do, after their checks. -/
def put (s : Store) (t : Task) : Store :=
  ⟨s.tasks.insert t.key t, fun key u h => by
    rw [SortedMap.get?_insert] at h
    split at h
    · next e => rw [e, ← Option.some.inj h]
    · exact s.keyed key u h⟩

@[simp] theorem get?_empty (key : String) : empty.get? key = none := rfl

@[simp] theorem get?_put (s : Store) (t : Task) (key : String) :
    (s.put t).get? key = if key = t.key then some t else s.get? key :=
  SortedMap.get?_insert ..

theorem key_of_get? {s : Store} {key : String} {t : Task} (h : s.get? key = some t) : t.key = key :=
  s.keyed key t h

/-- A new task starts at version one, whatever version it came with. -/
def create (s : Store) (t : Task) : Except StoreError (Task × Store) :=
  match s.get? t.key with
  | some _ => .error (.alreadyExists t.key)
  | none =>
    let stored := { t with metadata.version := 1 }
    .ok (stored, s.put stored)

/-- Versions stay within 64 bits. The last one is its own successor, so that a write to a task of
that version does not show in it. -/
def nextVersion (v : Nat) : Nat := min (v + 1) Bounds.nat64Max

/-- The stored task that a write replaces, if the write was made from it. -/
def base (s : Store) (incoming : Task) : Except StoreError Task :=
  match s.get? incoming.key with
  | none => .error (.notFound incoming.key)
  | some stored =>
    if incoming.metadata.version = stored.metadata.version then .ok stored
    else .error (.conflict incoming.key incoming.metadata.version stored.metadata.version)

/-- Replaces metadata and specification. Whatever status the incoming task has is passed over, and
its version only says what it was made from. -/
def update (s : Store) (incoming : Task) : Except StoreError (Task × Store) := do
  let stored ← s.base incoming
  let t : Task :=
    { metadata := { incoming.metadata with version := nextVersion stored.metadata.version }
      spec := incoming.spec
      status := stored.status }
  return (t, s.put t)

/-- Replaces status and annotations. The specification of the incoming task is passed over, so a
pass cannot undo a vote. -/
def updateStatus (s : Store) (incoming : Task) : Except StoreError (Task × Store) := do
  let stored ← s.base incoming
  let t : Task :=
    { metadata :=
        { stored.metadata with
          annotations := incoming.metadata.annotations
          version := nextVersion stored.metadata.version }
      spec := stored.spec
      status := incoming.status }
  return (t, s.put t)

end Store
end Quorum
