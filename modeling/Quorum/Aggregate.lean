import Quorum.Status
import Quorum.Tally
/-!
# From votes to a status

Aggregation looks at the specification and the status before it and nothing else. A final status
stays as it is. Responses are listed by kind, name and message, members by name, so the order of
the approvers does not show.
-/
namespace Quorum

/-- The records of members who decided, by name. The group's message speaks for all of them. -/
def Approver.decidedMembers (a : Approver) : List MemberResponse :=
  let decided := a.members.filterMap fun m =>
    m.vote.outcome?.map fun o => { name := m.name, response := o, message := a.message }
  decided.mergeSort fun m n => (compare m.name n.name).isLE

/-- What is reported of an approver who decided. A group is rejected by its own vote or by any of
its members, and is otherwise reported as approved. -/
def Approver.toResponse (a : Approver) : Response :=
  let members := a.decidedMembers
  let rejected := a.vote = .reject || members.any (·.response = .rejected)
  { name := a.name
    kind := a.kind
    response := if rejected then .rejected else .approved
    message := a.message
    members := members }

/-- By kind, name and message; no message comes before every message. -/
def Response.le (r s : Response) : Bool :=
  let byKey := (Approver.Key.mk r.kind r.name).compare ⟨s.kind, s.name⟩
  (byKey.then (compare r.message s.message)).isLE

/-- Approvers without a decision are left out, and what is left is sorted, so that the list does not
follow the order of the approvers. -/
def Spec.responses (s : Spec) : List Response :=
  ((s.approvers.filter Approver.hasDecision).map Approver.toResponse).mergeSort Response.le

/-- The status of the votes in `s` when `startTime` is already on record. -/
def Spec.freshStatus (s : Spec) (startTime : Option Instant) : Status :=
  let tally := s.tally
  { state := tally.state s.required
    approvers := s.approverNames.names
    responses := s.responses
    required := s.required
    received := tally.received
    startTime := startTime }

/-- The status after a count. A status that is final is handed back untouched, reason and all; of an
open one only the start time is carried over. -/
def Spec.aggregate (s : Spec) (previous : Option Status) : Status :=
  match previous with
  | some p => if p.state.isFinal then p else s.freshStatus p.startTime
  | none => s.freshStatus none

namespace Spec
variable {s : Spec}

theorem aggregate_of_final {p : Status} (h : p.state.isFinal = true) :
    s.aggregate (some p) = p := if_pos h

theorem aggregate_of_open {previous : Option Status}
    (h : ∀ p ∈ previous, p.state.isFinal = false) :
    s.aggregate previous = s.freshStatus (previous.bind (·.startTime)) := by
  cases previous with
  | none => rfl
  | some p => simp [aggregate, h p rfl]

end Spec
end Quorum
