import Quorum.Aggregate
import Quorum.Store
import Quorum.Time.Instant
import Quorum.Wire.Digest
/-!
# Reconcile passes

A pass brings the status of a stored task up to date. It counts the votes if the approver list has
changed since they were last counted, and only then rejects a task that is still pending past its
deadline, so that a late pass loses no votes. A final status is left as it is.

A task has a deadline counted from its start. At the deadline itself there is no time left but it
is not yet exceeded. A span of zero means no deadline.
-/
namespace Quorum.Deadline

/-- The time that a task has if no other limit is set. -/
def default : Span := .ofSeconds 3600

/-- Whether the deadline lies behind. A clock that stands before the start has exceeded nothing. -/
def exceeded (start now : Instant) (limit : Span) : Bool :=
  if limit.isZero then false
  else match now.since? start with
    | none => false
    | some elapsed => limit.nanos < elapsed.nanos

/-- A clock that stands before the start has used up nothing. -/
def remaining (start now : Instant) (limit : Span) : Option Span :=
  if limit.isZero then none
  else limit.minus? ((now.since? start).getD .zero)

/-- The text that an expired task is rejected with. -/
def reason (task : String) : String := s!"Approval task {task} is failed because of timeout"

end Quorum.Deadline

namespace Quorum.Pass

/-- The task as a pass would leave it. `changed` is false exactly if there is nothing to write, and
`start` is when the task's time began. -/
structure Plan where
  task : Task
  start : Instant
  changed : Bool

/-- A task starts when it is created or, failing that, when a pass first sees it. -/
def startOf (t : Task) (now : Instant) : Instant :=
  t.status.startTime.getD (t.metadata.created.getD now)

/-- The task with its start on record. A start that is there already is kept. -/
def withStart (t : Task) (now : Instant) : Task :=
  { t with status.startTime := some (startOf t now) }

/-- Counts the votes unless the digest on record is that of the approvers. -/
def count (t : Task) : Task × Bool :=
  let d := Digest.ofApprovers t.spec.approvers
  if t.digest? = some d then (t, false)
  else ({ t with status := t.spec.aggregate (some t.status) }.withDigest d, true)

/-- Rejects a task that is still pending past its deadline. An approval that the same pass has just
counted is safe. -/
def expire (t : Task) (start now : Instant) (limit : Span) : Task × Bool :=
  if t.status.state = .pending && Deadline.exceeded start now limit then
    let reason := Deadline.reason t.metadata.name
    ({ t with status.state := .rejected, status.reason := some reason }, true)
  else (t, false)

/-- What a pass makes of a task, at one time and with one limit. A task is written only if the start
was missing, votes were counted or the deadline has passed; a task that is final gets at most its
start. -/
def plan (t : Task) (now : Instant) (limit : Span) : Plan :=
  let start := startOf t now
  let started := t.status.startTime.isNone
  let t := withStart t now
  if t.status.state.isFinal then ⟨t, start, started⟩
  else
    let (t, counted) := count t
    let (t, expired) := expire t start now limit
    ⟨t, start, started || counted || expired⟩

/-- What a pass answers with. It describes the plan; if the plan could not be written, the answer is
an error instead. -/
structure Report where
  state : Outcome
  /-- When to look again, for a task with a deadline ahead. -/
  recheck : Option Span
  updated : Bool
deriving DecidableEq, Repr

/-- A task that is not final is to be looked at again when its time will be up, which no limit
leaves open. -/
def Plan.report (p : Plan) (now : Instant) (limit : Span) : Report :=
  let state := p.task.status.state
  ⟨state, if state.isFinal then none else Deadline.remaining p.start now limit, p.changed⟩

/-- One pass over the task at `key`. `write` may meet other writers. -/
def runWith [Monad m] (read : m Store) (write : Task → m (Except StoreError Task)) (key : String)
    (now : Instant) (limit : Span) : m (Except StoreError Report) := do
  match (← read).get key with
  | .error e => pure (.error e)
  | .ok t =>
    let p := plan t now limit
    if p.changed then
      match ← write p.task with
      | .error e => pure (.error e)
      | .ok _ => pure (.ok (p.report now limit))
    else pure (.ok (p.report now limit))

/-- A write against the store as it is. The status of the task goes in with the annotations, and the
specification that is stored stays. -/
def writeStatus (t : Task) : StateM Store (Except StoreError Task) := fun s =>
  match s.updateStatus t with
  | .ok (t, s) => (.ok t, s)
  | .error e => (.error e, s)

/-- The pass when nobody else writes. Then its write cannot lose, and it fails only where there is
no task. -/
def run (key : String) (now : Instant) (limit : Span) : StateM Store (Except StoreError Report) :=
  runWith get writeStatus key now limit

/-- One pass over each of the tasks that are stored now, by key. A failure stops no other pass. -/
def runAllWith [Monad m] (read : m Store) (write : Task → m (Except StoreError Task))
    (now : Instant) (limit : Span) : m (List (String × Except StoreError Report)) := do
  let keys := (← read).tasks.keys
  keys.mapM fun key => do return (key, ← runWith read write key now limit)

/-- The round over all tasks when nobody else writes. -/
def runAll (now : Instant) (limit : Span) :
    StateM Store (List (String × Except StoreError Report)) :=
  runAllWith get writeStatus now limit

end Quorum.Pass
