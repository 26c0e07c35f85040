import Quorum.Validation
/-!
# Well-formed specifications

The rules that validation enforces, said without naming what it reports.
-/
namespace Quorum

/-- The names that validation accepts for users: not blank, and without the mark that makes a text
the name of a group. -/
def UserName (name : String) : Prop :=
  Text.blank name = false ∧ ¬ Spec.groupMark.toList <+: name.toList

/-- The names that validation accepts for groups. A group is named behind a mark with a colon in it,
so its name has neither colons nor blanks. -/
def GroupName (name : String) : Prop :=
  Text.blank name = false ∧ (∀ c ∈ name.toList, Text.isBlank c = false) ∧ ':' ∉ name.toList

/-- An approver in which validation finds nothing, as far as one can tell without looking at the
others. -/
structure Approver.WellFormed (a : Approver) : Prop where
  named : (a.kind = .user ∧ UserName a.name) ∨ (a.kind = .group ∧ GroupName a.name)
  known : a.vote.isKnown = true
  group_of_members : a.members ≠ [] → a.kind = .group
  members_named : ∀ m ∈ a.members, UserName m.name
  members_known : ∀ m ∈ a.members, m.vote.isKnown = true
  members_distinct : (a.members.map (·.name)).Nodup

/-- A specification in which validation finds nothing: something is required, somebody is asked, and
no two entries have one kind and name. -/
structure Spec.WellFormed (s : Spec) : Prop where
  required_pos : 0 < s.required
  approvers_ne_nil : s.approvers ≠ []
  approvers_distinct : (s.approvers.map Approver.key).Nodup
  approvers_wellFormed : ∀ a ∈ s.approvers, a.WellFormed

theorem Spec.WellFormed.members_distinct {s : Spec} (h : s.WellFormed) {a : Approver}
    (ha : a ∈ s.approvers) : (a.members.map (·.name)).Nodup :=
  (h.approvers_wellFormed a ha).members_distinct

/-- Nobody has voted yet, neither in an entry nor on the record of a group. It is what a creation
has to satisfy beyond being well-formed. -/
structure Spec.AllPending (s : Spec) : Prop where
  approvers_pending : ∀ a ∈ s.approvers, a.vote = .pending
  members_pending : ∀ a ∈ s.approvers, ∀ m ∈ a.members, m.vote = .pending

end Quorum
