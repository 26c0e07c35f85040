import Quorum.Ballot
import Quorum.Pass
/-!
# Writes that meet other writers

Other writers act each time a write is about to reach the store: the task may be gone, the write
may lose to another one a number of times, and after that further votes may land on the same task
just before the write does.
-/
namespace Quorum

/-- The vote of somebody else, which lands on the task that is about to be written. -/
structure Rival where
  principal : Principal
  vote : Vote
  message : Option String := none
deriving DecidableEq, Repr

/-- What other writers are still going to do: take the task away for good, make a number of writes
lose, and cast the votes in turn. -/
structure Contention where
  missing : Bool := false
  conflicts : Nat := 0
  votes : List Rival := []
deriving DecidableEq, Repr

namespace Contention

/-- A store, the other writers still to act, and what came of the votes they cast. -/
structure Scene where
  store : Store
  contention : Contention := {}
  cast : List (Except CastError Task) := []

/-- The next vote of another writer, on the task at `key`. -/
def rivalVote (key : String) : StateM Scene Unit := fun scene =>
  match scene.contention.votes with
  | [] => ((), scene)
  | r :: rs =>
    let ballot : Ballot := ⟨key, r.principal, r.vote, r.message⟩
    let (result, store) := (ballot.cast Ballot.defaultRetries).run scene.store
    ((), { scene with
      store, contention.votes := rs, cast := scene.cast ++ [result] })

/-- A write that lets the other writers act first. -/
def write (inner : Task → StateM Store (Except StoreError Task)) (t : Task) :
    StateM Scene (Except StoreError Task) := do
  let scene ← get
  if scene.contention.missing then return .error (.notFound t.key)
  else if scene.contention.conflicts > 0 then
    set { scene with contention.conflicts := scene.contention.conflicts - 1 }
    return .error (.conflict t.key t.metadata.version (t.metadata.version + 1))
  else
    rivalVote t.key
    modifyGet fun scene =>
      let (result, store) := (inner t).run scene.store
      (result, { scene with store })

/-- Reading is never in anybody's way. What is read may be out of date by the time of the write. -/
def read : StateM Scene Store := do return (← get).store

/-- A vote among the writers of the scene, which are met each time it writes. -/
def vote (b : Ballot) (retries : Nat) : StateM Scene (Except CastError Task) :=
  b.tryCast read (write Ballot.writeSpec) retries (Ballot.attempts retries)

/-- A pass among the writers of the scene, which are met if it writes at all. -/
def pass (key : String) (now : Instant) (limit : Span) :
    StateM Scene (Except StoreError Pass.Report) :=
  Pass.runWith read (write Pass.writeStatus) key now limit

/-- A round over all tasks among the same writers, who may use up their acts on the first of
them. -/
def passAll (now : Instant) (limit : Span) :
    StateM Scene (List (String × Except StoreError Pass.Report)) :=
  Pass.runAllWith read (write Pass.writeStatus) now limit

end Contention
end Quorum
