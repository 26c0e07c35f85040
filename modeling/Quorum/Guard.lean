import Quorum.Change
import Quorum.Tally
import Quorum.Task
/-!
# Who may edit what

An edit is admitted only as one vote of the acting principal in a slot of their own; a single
change beyond that denies the whole edit. The slots of a principal are

* the vote and message of the user entry with their name;
* the vote of a group they belong to, if the group keeps no member records or the same edit moves
  their own record to that vote;
* their own record in a group, which they may add to a group they belong to.

A group's message goes with the principal's vote in that group. A vote of a group that keeps no
records is on record for everyone who claims the group.
-/
namespace Quorum

/-- Why an edit is turned down, in the order in which `authorize` asks. -/
inductive Denial
  | finalState
  | notAnApprover
  | undecidedVote (vote : Vote)
  | alreadyRejected
  | alreadyApproved
  | onlyOwnVote
deriving DecidableEq, Repr

/-- The text that the answer carries. The vote that is not one of two is shown as it came. -/
def Denial.message : Denial → String
  | finalState => "ApprovalTask has already reached its final state"
  | notAnApprover => "User is not present in the approvers list"
  | undecidedVote v =>
    s!"Invalid input change: invalid input value: '{v.text}'. " ++
      "Supported values are 'approve' or 'reject'"
  | alreadyRejected => "User has already rejected"
  | alreadyApproved => "User has already approved"
  | onlyOwnVote => "User can only update their own approval input"

/-- What becomes of an edit. There is no third answer: an edit is written as it came or not at
all. -/
inductive Decision
  | allow
  | deny (denial : Denial)
deriving DecidableEq, Repr

def Decision.isAllow : Decision → Bool
  | .allow => true
  | .deny _ => false

def Decision.denial? : Decision → Option Denial
  | .allow => none
  | .deny d => some d

namespace Guard

/-- Whether a principal is in a group, by claim or by a member record in it. A record counts as well
as the request's word does. -/
def belongsTo (s : Spec) (group : String) (p : Principal) : Bool :=
  p.claims group || ((s.approver? .group group).any fun a => (a.member? p.username).isSome)

/-- Whether the principal has a slot. A task without approvers is open to anyone. -/
def eligible (s : Spec) (p : Principal) : Bool :=
  s.approvers.isEmpty || s.approvers.any fun a =>
    match a.kind with
    | .user => a.name = p.username
    | .group => belongsTo s a.name p
    | .other _ => false

/-- Where an own vote lands. The vote of a group and a record in it are one slot. -/
inductive Slot
  | user
  | group (name : String)
deriving DecidableEq, Repr

def Slot.ofChange? : Change → Option (Slot × Vote)
  | .vote ⟨.user, _⟩ v => some (.user, v)
  | .vote ⟨.group, name⟩ v => some (.group name, v)
  | .memberAdded g _ v => some (.group g, v)
  | .memberVote g _ v => some (.group g, v)
  | _ => none

/-- A group's vote is the principal's own if the group keeps no records, or if the edit moves their
record to the same vote. -/
def ownsGroupVote (old new : Spec) (group user : String) (v : Vote) : Bool :=
  match old.approver? .group group with
  | none => false
  | some o =>
    let before := (o.member? user).map (·.vote)
    let after := ((new.approver? .group group).bind (·.member? user)).map (·.vote)
    o.members.isEmpty || (after = some v && before ≠ some v)

/-- The slots of the principal. A message counts as theirs only in their user entry; a group's
message is judged by `groupMessage?`. -/
def owns (old new : Spec) (p : Principal) : Change → Bool
  | .vote ⟨.user, name⟩ _ => name = p.username
  | .message ⟨.user, name⟩ => name = p.username
  | .vote ⟨.group, name⟩ v => belongsTo old name p && ownsGroupVote old new name p.username v
  | .memberAdded group member _ => member = p.username && belongsTo old group p
  | .memberVote _ member _ => member = p.username
  | _ => false

/-- Messages of the principal's groups are judged by the votes beside them. -/
def groupMessage? (old : Spec) (p : Principal) : Change → Option String
  | .message ⟨.group, name⟩ => if belongsTo old name p then some name else none
  | _ => none

/-- The changes that are not such messages, own and foreign. -/
def plainChanges (old new : Spec) (p : Principal) : List Change :=
  (old.changesTo new).filter fun c => (groupMessage? old p c).isNone

/-- Every vote that the edit casts in a slot of the principal. A group's vote that moves together
with the principal's record shows up twice, as one and the same vote. -/
def votes (old new : Spec) (p : Principal) : List (Slot × Vote) :=
  ((plainChanges old new p).filter (owns old new p)).filterMap Slot.ofChange?

/-- The groups of the principal whose message the edit changes. -/
def groupMessages (old new : Spec) (p : Principal) : List String :=
  (old.changesTo new).filterMap (groupMessage? old p)

/-- Whether the edit also casts a vote in that group, which is what lets its message through. -/
def votedInGroup (votes : List (Slot × Vote)) (group : String) : Bool :=
  votes.any (·.1 = .group group)

/-- Whether the edit does anything that the principal may do. -/
def changesOwn (old new : Spec) (p : Principal) : Bool :=
  (plainChanges old new p).any (owns old new p) ||
    (groupMessages old new p).any (votedInGroup (votes old new p))

/-- Whether the edit does anything that the principal may not do. One such change denies all of
it. -/
def changesForeign (old new : Spec) (p : Principal) : Bool :=
  (plainChanges old new p).any (fun c => !owns old new p c) ||
    (groupMessages old new p).any fun g => !votedInGroup (votes old new p) g

/-- One slot and one value, however often it is given. -/
def isSingleVote : List (Slot × Vote) → Bool
  | [] => true
  | v :: vs => vs.all (· = v)

/-- Decisions of the principal that the specification holds. A group without records speaks for
everyone who claims it. -/
def recordedInSpec (s : Spec) (p : Principal) : List Outcome :=
  s.approvers.flatMap fun a =>
    match a.kind with
    | .user => if a.name = p.username then a.vote.outcome?.toList else []
    | .group =>
      if a.members.isEmpty then if p.claims a.name then a.vote.outcome?.toList else []
      else (a.members.filter (·.name = p.username)).filterMap (·.vote.outcome?)
    | .other _ => []

/-- Decisions of the principal that the status holds, read by the same rules. An edit of the
specification does not take them away. -/
def recordedInStatus (s : Status) (p : Principal) : List Outcome :=
  s.responses.flatMap fun r =>
    match r.kind with
    | .user => if r.name = p.username then [r.response] else []
    | .group =>
      if r.members.isEmpty then if p.claims r.name then [r.response] else []
      else (r.members.filter (·.name = p.username)).map (·.response)
    | .other _ => []

/-- Every decision of the principal that is on record. -/
def recorded (t : Task) (p : Principal) : List Outcome :=
  recordedInSpec t.spec p ++ recordedInStatus t.status p

end Guard

open Guard in
/-- Whether the principal may replace the specification of the stored task by `new`. -/
def authorize (old : Task) (new : Spec) (p : Principal) : Decision :=
  let votes := votes old.spec new p
  if old.status.state.isFinal || old.spec.tally.meets old.spec.required then .deny .finalState
  else if !eligible old.spec p then .deny .notAnApprover
  else match votes.find? fun v => !v.2.isDecided with
    | some (_, bad) => .deny (.undecidedVote bad)
    | none =>
      if (recorded old p).contains .rejected then .deny .alreadyRejected
      else if (recorded old p).contains .approved && votes.any (·.2 = .approve) then
        .deny .alreadyApproved
      else if !changesOwn old.spec new p || changesForeign old.spec new p ||
          !isSingleVote votes then
        .deny .onlyOwnVote
      else .allow

end Quorum
