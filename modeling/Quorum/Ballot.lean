import Quorum.Admission
import Quorum.Integer
import Quorum.Store
/-!
# Casting a vote

A vote reads the task, edits the voter's own slot, has the edit admitted, and writes it back. When
the write loses to another one, all of it is done again from the task as it is then, so that
admission always judges the task that the write replaces.
-/
namespace Quorum

/-- A vote as it is cast: on which task, by whom, and with what to say about it. -/
structure Ballot where
  key : String
  principal : Principal
  vote : Vote
  message : Option String := none
deriving DecidableEq, Repr

/-- Why a vote did not come to be stored. -/
inductive CastError
  | store (error : StoreError)
  | denied (refusal : Admission.Refusal)
  | noSlot (key user : String)
  | retriesExhausted (key : String) (attempts : Nat)
deriving Repr

def CastError.message : CastError → String
  | store e => e.message
  | denied r => s!"admission denied: {r.message}"
  | noSlot key user => s!"{user} has no vote slot in approval task {key}"
  | retriesExhausted key n => s!"gave up on approval task {key} after {n} conflicting writes"

/-- The first item that satisfies `p`, changed; `none` if there is none. -/
def modifyFirst? (p : α → Bool) (f : α → α) : List α → Option (List α)
  | [] => none
  | a :: as => if p a then some (f a :: as) else (modifyFirst? p f as).map (a :: ·)

namespace Ballot

/-- A message, when given, replaces the one that is there. -/
def say (b : Ballot) (old : Option String) : Option String := b.message.or old

/-- The entry with the vote in it. Members, if there are any, are left as they are. -/
def inUserEntry (b : Ballot) (a : Approver) : Approver :=
  { a with vote := b.vote, message := b.say a.message }

/-- The voter's record, changed or added, and the group's vote after it. -/
def inGroup (b : Ballot) (a : Approver) : Approver :=
  let user := b.principal.username
  let cast := fun (m : Member) => { m with vote := b.vote }
  let members := match modifyFirst? (·.name = user) cast a.members with
    | some ms => ms
    | none => a.members ++ [⟨user, b.vote⟩]
  { a with members := members, vote := b.vote, message := b.say a.message }

/-- The entry that bears the voter's own name. Groups of that name are not meant. -/
def isUserEntry (b : Ballot) (a : Approver) : Bool :=
  a.kind = .user && a.name = b.principal.username

/-- A group is the voter's if they claim it, or if they are on its record already. -/
def isOwnGroup (b : Ballot) (a : Approver) : Bool :=
  a.isGroup && (b.principal.claims a.name || (a.member? b.principal.username).isSome)

/-- The specification with the vote in it. The voter's user entry comes before the first group they
belong to; `none` if there is neither. -/
def edit? (b : Ballot) (s : Spec) : Option Spec :=
  let approvers? := (modifyFirst? b.isUserEntry b.inUserEntry s.approvers).or
    (modifyFirst? b.isOwnGroup b.inGroup s.approvers)
  approvers?.map fun as => { s with approvers := as }

/-- The task to be written, made from the stored one and admitted against it. -/
def propose (b : Ballot) (store : Store) : Except CastError Task := do
  let current ← (store.get b.key).mapError .store
  match b.edit? current.spec with
  | none => throw (.noSlot b.key b.principal.username)
  | some spec =>
    let proposed := { current with spec }
    (Admission.review (.update b.principal proposed current)).mapError .denied
    return proposed

/-- The number of further tries for callers who do not ask for one. -/
def defaultRetries : Nat := 5

/-- How often a vote is tried that may be retried `retries` times. -/
def attempts (retries : Nat) : Nat := min (retries + 1) Bounds.nat32Max

/-- Tries the vote up to `left` times. `write` may meet other writers. -/
def tryCast [Monad m] (b : Ballot) (read : m Store) (write : Task → m (Except StoreError Task))
    (retries : Nat) : (left : Nat) → m (Except CastError Task)
  | 0 => pure (.error (.retriesExhausted b.key (attempts retries)))
  | left + 1 => do
    match b.propose (← read) with
    | .error e => pure (.error e)
    | .ok proposed =>
      match ← write proposed with
      | .ok t => pure (.ok t)
      | .error (.conflict ..) => tryCast b read write retries left
      | .error e => pure (.error (.store e))

/-- A write against the store as it is. The specification of the task goes in and the status that is
stored stays. -/
def writeSpec (t : Task) : StateM Store (Except StoreError Task) := fun s =>
  match s.update t with
  | .ok (t, s) => (.ok t, s)
  | .error e => (.error e, s)

/-- The vote when nobody else writes. Its first write cannot lose, so the retries do not matter
then. -/
def cast (b : Ballot) (retries : Nat) : StateM Store (Except CastError Task) :=
  b.tryCast MonadState.get writeSpec retries (attempts retries)

end Ballot
end Quorum
