import Quorum.Contention
import Quorum.Draft
import Quorum.Params
/-!
# A controller: a store, a clock and what passes and votes go by

Each action answers and leaves the controller behind as it is afterwards.
-/
namespace Quorum

/-- A store with the settings that calls fall back on. The clock stands still until it is told
otherwise. -/
structure Controller where
  store : Store := .empty
  now : Instant := Draft.epoch
  limit : Span := Deadline.default
  retries : Nat := Ballot.defaultRetries

namespace Controller

/-- The errors of all actions under one roof, each with the message that it has on its own. -/
inductive Error
  | store (e : StoreError)
  | cast (e : CastError)
  | params (e : TaskParams.ParamError)
  | invalid (ps : Spec.Problems)

def Error.message : Error → String
  | store e => e.message
  | cast e => e.message
  | params e => e.message
  | invalid ps => s!"validation failed: {ps.text}"

/-- What a caller can ask for: an answer, and the controller as it is after it. -/
abbrev Action (α : Type) := StateM Controller α

/-- A write to the store. A write that fails leaves the controller exactly as it was. -/
def onStore (f : Store → Except StoreError (Task × Store)) : Action (Except StoreError Task) :=
  fun c =>
    match f c.store with
    | .ok (t, s) => (.ok t, { c with store := s })
    | .error e => (.error e, c)

def create (t : Task) : Action (Except StoreError Task) := onStore (·.create t)

def update (t : Task) : Action (Except StoreError Task) := onStore (·.update t)

def updateStatus (t : Task) : Action (Except StoreError Task) := onStore (·.updateStatus t)

/-- Runs an action among other writers. The votes they cast come back beside the answer. -/
def among (writers : Contention) (act : StateM Contention.Scene α) :
    Action (α × List (Except CastError Task)) := fun c =>
  let (a, scene) := act.run { store := c.store, contention := writers }
  ((a, scene.cast), { c with store := scene.store })

/-- Casts a vote among other writers, with the controller's number of retries unless one is
given. -/
def vote (b : Ballot) (retries : Option Nat) (writers : Contention) :
    Action (Except CastError Task × List (Except CastError Task)) := do
  among writers (Contention.vote b (retries.getD (← get).retries))

/-- One pass over the task at `key`, at the controller's time and with its limit. -/
def reconcile (key : String) (writers : Contention) :
    Action (Except StoreError Pass.Report × List (Except CastError Task)) := do
  let c ← get
  among writers (Contention.pass key c.now c.limit)

/-- One pass over every task in the order of their keys, all at the same time and with the same
limit. -/
def reconcileAll (writers : Contention) :
    Action (List (String × Except StoreError Pass.Report) × List (Except CastError Task)) := do
  let c ← get
  among writers (Contention.passAll c.now c.limit)

/-- What came of a reviewed write: the answer of the review and, if it allowed the write, that of
the store. -/
structure Reviewed where
  response : Admission.Response
  stored : Option (Except StoreError Task)

/-- Stores a task if the review allows its creation. What comes back tells a refusal from a write
that failed. -/
def createReviewed (p : Principal) (t : Task) : Action Reviewed := do
  let response := Admission.respond (.create p t)
  if response.allowed then return ⟨response, some (← create t)⟩ else return ⟨response, none⟩

/-- Replaces the specification of the stored task, if the review allows it. The rest of the task is
proposed as it is stored, so the write cannot meet a conflict. -/
def updateReviewed (key : String) (p : Principal) (spec : Spec) :
    Action (Except StoreError Reviewed) := do
  match (← get).store.get key with
  | .error e => return .error e
  | .ok old =>
    let new := { old with spec }
    let response := Admission.respond (.update p new old)
    if response.allowed then return .ok ⟨response, some (← update new)⟩
    else return .ok ⟨response, none⟩

/-- Stores the task of a run. The parameters are judged before the task, and the task before the
store is asked. -/
def launch (name : String) (params : List Param) : Action (Except Error Task) := do
  let c ← get
  match TaskParams.ofParams params with
  | .error e => return .error (.params e)
  | .ok p =>
    match p.toTask name c.now with
    | .error ps => return .error (.invalid ps)
    | .ok t => return (← create t).mapError .store

/-- No limit means the usual one, not that there is none. -/
def setLimit (limit : Option Span) : Action Span :=
  modifyGet fun c => let l := limit.getD Deadline.default; (l, { c with limit := l })

def setClock (t : Instant) : Action Instant := modifyGet fun c => (t, { c with now := t })

/-- Moves the clock on, through a leap second if it stands in one. -/
def advance (by_ : Span) : Action Instant :=
  modifyGet fun c => let t := c.now.plus by_; (t, { c with now := t })

/-- A controller over one task, whose clock starts when the task was created. -/
def ofTask (t : Task) (limit : Span) : Controller :=
  let c : Controller := { now := t.metadata.created.getD Draft.epoch, limit }
  ((create t).run c).2

end Controller
end Quorum
