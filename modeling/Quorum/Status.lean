import Quorum.Approver
import Quorum.Time.Instant
/-!
# What has been recorded of the votes
-/
namespace Quorum

/-- What a member of a group decided. Members who have not decided are not listed. -/
structure MemberResponse where
  name : String
  response : Outcome
  message : Option String := none
deriving DecidableEq, Repr

/-- What an approver decided, with the members of a group who did. -/
structure Response where
  name : String
  kind : Approver.Kind := .user
  response : Outcome
  message : Option String := none
  members : List MemberResponse := []
deriving DecidableEq, Repr

/-- What the last count has left. Apart from the start time, which is set once, all of an open
status is made anew by each count. -/
structure Status where
  state : Outcome := .pending
  approvers : List String := []
  responses : List Response := []
  required : Int := 0
  received : Int := 0
  startTime : Option Instant := none
  reason : Option String := none
deriving DecidableEq, Repr, Inhabited

/-- The status of a task nobody has voted on. -/
def Status.initial (s : Spec) : Status :=
  { approvers := s.approverNames.names, required := s.required }

end Quorum
