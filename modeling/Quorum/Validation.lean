import Quorum.Approver
import Quorum.Text.Blank
/-!
# Checking a specification

All problems are reported, approver by approver. Each one has a place in the specification and a
cause; `Problem.path` and `Problem.message` say both in words.
-/
namespace Quorum

namespace Spec

/-- A place in a specification. Positions count from zero, in the list as it was sent. -/
inductive Place
  | required
  | approvers
  | name (approver : Nat)
  | kind (approver : Nat)
  | vote (approver : Nat)
  | members (approver : Nat)
  | memberName (approver member : Nat)
  | memberVote (approver member : Nat)
deriving DecidableEq, Repr

/-- What is wrong at a place, with everything that the message about it shows. -/
inductive Defect
  | notPositive (required : Int)
  | missing
  | emptyUserName
  | groupMarkInUserName
  | emptyGroupName
  | blankInGroupName
  | colonInGroupName
  | unknownKind (text : String)
  | unknownVote (vote : Vote)
  | repeatedApprover (name : String) (first : Nat)
  | membersOfUser
  | repeatedMember (name : String) (approver first : Nat)
  | alreadyVoted (vote : Vote)
deriving DecidableEq, Repr

/-- One finding of validation. What is shown of it is made from these two alone. -/
structure Problem where
  place : Place
  defect : Defect
deriving DecidableEq, Repr

namespace Place

/-- The place in the terms of the encoded specification, so that whoever sent it finds it there. -/
def path : Place → String
  | required => "numberOfApprovalsRequired"
  | approvers => "approvers"
  | name i => s!"approvers[{i}].name"
  | kind i => s!"approvers[{i}].type"
  | vote i => s!"approvers[{i}].input"
  | members i => s!"approvers[{i}].users"
  | memberName i j => s!"approvers[{i}].users[{j}].name"
  | memberVote i j => s!"approvers[{i}].users[{j}].input"

/-- The approver a place belongs to. -/
def approver? : Place → Option Nat
  | required | approvers => none
  | name i | kind i | vote i | members i | memberName i _ | memberVote i _ => some i

end Place

def Defect.message : Defect → String
  | notPositive n => s!"must be greater than 0, got {n}"
  | missing => "required field is missing"
  | emptyUserName => "username cannot be empty"
  | groupMarkInUserName =>
    "username cannot start with 'group:' prefix - use type: Group for group approvers"
  | emptyGroupName => "group name cannot be empty"
  | blankInGroupName => "group name cannot contain spaces"
  | colonInGroupName => "group name cannot contain colons"
  | unknownKind s => s!"must be either 'User' or 'Group', got '{s}'"
  | unknownVote v => s!"must be one of: pending, approve, reject, got '{v.text}'"
  | repeatedApprover n first => s!"duplicate approver '{n}' (also found at approvers[{first}])"
  | membersOfUser => "only allowed for approvers of type 'Group'"
  | repeatedMember n i first =>
    s!"duplicate user '{n}' within group (also found at approvers[{i}].users[{first}])"
  | alreadyVoted v => s!"must be 'pending' for new ApprovalTask, got '{v.text}'"

/-- A finding as it is shown: where, then what. -/
def Problem.text (p : Problem) : String := p.place.path ++ ": " ++ p.defect.message

/-- How a group is told from a user where both are plain text. -/
def groupMark : String := "group:"

/-- User names are plain text that cannot be taken for the name of a group. -/
def userNameDefect? (name : String) : Option Defect :=
  if Text.blank name then some .emptyUserName
  else if groupMark.toList.isPrefixOf name.toList then some .groupMarkInUserName
  else none

/-- Group names are written behind the mark in parameters; they have no blank in them and no
colon. -/
def groupNameDefect? (name : String) : Option Defect :=
  if Text.blank name then some .emptyGroupName
  else if name.toList.any Text.isBlank then some .blankInGroupName
  else if name.toList.contains ':' then some .colonInGroupName
  else none

/-- A member without a name is a missing field; otherwise members are users. -/
def memberNameDefect? (name : String) : Option Defect :=
  if Text.blank name then some .missing else userNameDefect? name

/-- The problem of a place where a defect may have been found. -/
def problemIf (found : Option Defect) (place : Place) : List Problem :=
  match found with
  | some d => [⟨place, d⟩]
  | none => []

def voteDefect? (v : Vote) : Option Defect := if v.isKnown then none else some (.unknownVote v)

/-- The name is checked by the rules of the kind. Of an unknown kind only the kind is reported. -/
def kindProblems (i : Nat) (a : Approver) : List Problem :=
  match a.kind with
  | .user => problemIf (userNameDefect? a.name) (.name i)
  | .group => problemIf (groupNameDefect? a.name) (.name i)
  | .other s => [⟨.kind i, .unknownKind s⟩]

/-- Problems of the member at `j`, given the members in front of it. -/
def memberProblems (i j : Nat) (before : List Member) (m : Member) : List Problem :=
  problemIf (memberNameDefect? m.name) (.memberName i j) ++
    problemIf ((before.findIdx? (·.name = m.name)).map (.repeatedMember m.name i))
        (.memberName i j) ++
    problemIf (voteDefect? m.vote) (.memberVote i j)

/-- Members are checked in order, each against those in front of it. -/
def membersProblems (i : Nat) (members : List Member) : List Problem :=
  members.zipIdx.flatMap fun (m, j) => memberProblems i j (members.take j) m

/-- All that can be said of one approver by itself. Members of anything but a group are reported as
one problem, and are not looked into. -/
def approverProblems (i : Nat) (a : Approver) : List Problem :=
  kindProblems i a ++ problemIf (voteDefect? a.vote) (.vote i) ++
    if a.members.isEmpty then []
    else if a.isGroup then membersProblems i a.members
    else [⟨.members i, .membersOfUser⟩]

/-- An approver repeats the first one of the same kind and name. -/
def repetitionProblems (i : Nat) (before : List Approver) (a : Approver) : List Problem :=
  problemIf ((before.findIdx? (·.key = a.key)).map (.repeatedApprover a.name)) (.name i)

/-- The problems of a specification in the order of its text, the repetition of an approver behind
the approver's own problems. A list that is empty is reported as missing. -/
def problems (s : Spec) : List Problem :=
  (if s.required ≤ 0 then [⟨.required, .notPositive s.required⟩] else []) ++
    if s.approvers.isEmpty then [⟨.approvers, .missing⟩]
    else s.approvers.zipIdx.flatMap fun (a, i) =>
      approverProblems i a ++ repetitionProblems i (s.approvers.take i) a

/-- Votes that are not pending, of approvers and of members alike. They are collected in a round of
their own over the whole list. -/
def votedProblems (s : Spec) : List Problem :=
  s.approvers.zipIdx.flatMap fun (a, i) =>
    problemIf (if a.vote = .pending then none else some (.alreadyVoted a.vote)) (.vote i) ++
      a.members.zipIdx.flatMap fun (m, j) =>
        problemIf (if m.vote = .pending then none else some (.alreadyVoted m.vote))
          (.memberVote i j)

/-- Problems of the specification of a new task, where nobody can have voted yet. -/
def creationProblems (s : Spec) : List Problem := s.problems ++ s.votedProblems

/-- At least one problem. The first one is what is shown. -/
structure Problems where
  first : Problem
  others : List Problem
deriving DecidableEq, Repr

def Problems.toList (ps : Problems) : List Problem := ps.first :: ps.others

def Problems.text (ps : Problems) : String := ps.first.text

/-- A list of problems as the result of a check. -/
def verdict : List Problem → Except Problems Unit
  | [] => .ok ()
  | p :: ps => .error ⟨p, ps⟩

@[simp] theorem verdict_eq_ok_iff {ps : List Problem} : verdict ps = .ok () ↔ ps = [] := by
  cases ps <;> simp [verdict]

/-- The check that a specification has to pass before it is admitted. It finds all problems and
answers with the first one in front. -/
def validate (s : Spec) : Except Problems Unit := verdict s.problems

/-- The check that a creation has passed on top: nobody voted beforehand. -/
def validateNew (s : Spec) : Except Problems Unit := verdict s.creationProblems

end Spec
end Quorum
