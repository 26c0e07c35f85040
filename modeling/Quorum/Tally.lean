import Quorum.Approver
/-!
# Counting votes

Whoever approves counts once, however many of their entries say so. A group counts through the
records of its members; a group's own approval names nobody and adds nothing. Any rejection, of an
entry or of a group's member, decides the task.
-/
namespace Quorum

/-- The names that one approver adds to the approving side. -/
def Approver.approving (a : Approver) : List String :=
  match a.kind with
  | .user => if a.vote = .approve then [a.name] else []
  | .group => (a.members.filter (·.vote = .approve)).map (·.name)
  | .other _ => []

/-- Whether the entry is against, by its own vote or, for a group, by the record of any member. -/
def Approver.rejects (a : Approver) : Bool :=
  a.vote = .reject || (a.kind = .group && a.members.any (·.vote = .reject))

/-- The two things a decision is made from: who approves, without repetition, and whether anybody
rejects. -/
structure Tally where
  approving : NameSet
  rejected : Bool
deriving DecidableEq, Repr

def Spec.tally (s : Spec) : Tally :=
  ⟨.ofList (s.approvers.flatMap Approver.approving), s.approvers.any Approver.rejects⟩

namespace Tally

/-- The number of people behind the approvals. It is what the requirement is held against. -/
def received (t : Tally) : Int := t.approving.size

/-- A requirement of nothing is never met. Validation refuses such requirements, but the counting
does not rely on it. -/
def meets (t : Tally) (required : Int) : Bool := 0 < required && required ≤ t.received

/-- A rejection outweighs any number of approvals. Without one the requirement decides, and short of
it nothing is decided. -/
def state (t : Tally) (required : Int) : Outcome :=
  if t.rejected then .rejected
  else if t.meets required then .approved
  else .pending

end Tally
end Quorum
