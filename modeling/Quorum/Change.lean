import Quorum.Approver
/-!
# Changes between two specifications

Approvers are compared by kind and name and members by name, so reordering is no change. Of
repeated approvers or members the first one is compared, and every further one is a change of its
own: removed where it stood in the old specification, added where it stands in the new one.
-/
namespace Quorum

/-- One difference between two specifications, in the terms in which an edit is judged: whose entry
it touches and, for votes, what is voted. -/
inductive Change
  | required
  | description
  | approverAdded (key : Approver.Key)
  | approverRemoved (key : Approver.Key)
  | vote (key : Approver.Key) (new : Vote)
  | message (key : Approver.Key)
  | memberAdded (group member : String) (vote : Vote)
  | memberRemoved (group member : String)
  | memberVote (group member : String) (new : Vote)
deriving DecidableEq, Repr

namespace Change

/-- The items whose key is neither in `seen` nor that of an earlier item. -/
def firsts [DecidableEq κ] (key : α → κ) (seen : List κ) : List α → List α
  | [] => []
  | a :: as => if key a ∈ seen then firsts key seen as else a :: firsts key (key a :: seen) as

/-- The items that `firsts` leaves out. Each of them has the key of an item further in front. -/
def repeats [DecidableEq κ] (key : α → κ) (seen : List κ) : List α → List α
  | [] => []
  | a :: as => if key a ∈ seen then a :: repeats key seen as else repeats key (key a :: seen) as

end Change

/-- First members by name. Two approvers are compared through it, so that the order of their members
does not show. -/
def Approver.memberIndex (a : Approver) : List Member :=
  (Change.firsts Member.name [] a.members).mergeSort fun m n => (compare m.name n.name).isLE

/-- First approvers by kind and name. It plays the part for a specification that
`Approver.memberIndex` plays for a group. -/
def Spec.index (s : Spec) : List Approver :=
  (Change.firsts Approver.key [] s.approvers).mergeSort fun a b => a.key.le b.key

namespace Change

/-- The change `c` if the two values differ, and nothing otherwise. -/
def whenChanged [DecidableEq α] (old new : α) (c : Change) : List Change :=
  if old = new then [] else [c]

/-- What became of the record of the member `m` of the new approver, looked up among the first
members of the old one. -/
def ofMember (old : Approver) (m : Member) (group : String) : List Change :=
  match old.memberIndex.find? (·.name = m.name) with
  | some o => whenChanged o.vote m.vote (.memberVote group m.name m.vote)
  | none => [.memberAdded group m.name m.vote]

/-- The changes from `old` to `new`, two approvers of one key. -/
def ofApprover (old new : Approver) : List Change :=
  whenChanged old.vote new.vote (.vote new.key new.vote) ++
    whenChanged old.message new.message (.message new.key) ++
    (repeats Member.name [] old.members).map (fun m => .memberRemoved new.name m.name) ++
    (repeats Member.name [] new.members).map (fun m => .memberAdded new.name m.name m.vote) ++
    (old.memberIndex.filter fun m => !new.memberIndex.any (·.name = m.name)).map
      (fun m => .memberRemoved new.name m.name) ++
    new.memberIndex.flatMap fun m => ofMember old m new.name

end Change

open Change in
/-- All changes from `old` to `new`. Further entries of one key come before the entries that are
compared, so a repeated approver is never mistaken for an edited one. -/
def Spec.changesTo (old new : Spec) : List Change :=
  whenChanged old.required new.required .required ++
    whenChanged old.description new.description .description ++
    (repeats Approver.key [] old.approvers).map (fun a => .approverRemoved a.key) ++
    (repeats Approver.key [] new.approvers).map (fun a => .approverAdded a.key) ++
    (old.index.filter fun a => !new.index.any (·.key = a.key)).map
      (fun a => .approverRemoved a.key) ++
    new.index.flatMap fun a =>
      match old.index.find? (·.key = a.key) with
      | some o => ofApprover o a
      | none => [.approverAdded a.key]

end Quorum
