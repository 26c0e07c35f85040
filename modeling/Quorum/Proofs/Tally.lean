import Mathlib.Data.List.Perm.Subperm
import Quorum.Tally
import Quorum.WellFormed

/-!
# What a tally says of the votes

The tally of a specification meets a threshold if that many people approve, each counted once
(`Spec.meets_iff`), and it is rejected if a rejection stands anywhere, as long as only groups have
members (`Spec.rejected_iff`).
-/
namespace Quorum
variable {s : Spec} {a : Approver} {name : String}

attribute [ext] Tally

/-- The approver speaks for `name`, or has a member who does, in favour. -/
def Approver.ApprovedBy (a : Approver) (name : String) : Prop :=
  a.kind = .user ∧ a.name = name ∧ a.vote = .approve ∨
    a.kind = .group ∧ ⟨name, .approve⟩ ∈ a.members

/-- The entry rejects, or somebody on its record does. The kind of the entry does not matter here,
unlike in the count. -/
def Approver.HoldsReject (a : Approver) : Prop :=
  a.vote = .reject ∨ ∃ m ∈ a.members, m.vote = .reject

namespace Spec

/-- Somebody of that name approves, in an entry of their own or on the record of a group. -/
def ApprovedBy (s : Spec) (name : String) : Prop := ∃ a ∈ s.approvers, a.ApprovedBy name

/-- A rejection stands somewhere, with an approver or with a member of one. -/
def HoldsReject (s : Spec) : Prop := ∃ a ∈ s.approvers, a.HoldsReject

/-- As many as are required approve, and somebody is required. -/
def HasQuorum (s : Spec) : Prop :=
  0 < s.required ∧ ∃ names : List String, names.Nodup ∧ s.required ≤ names.length ∧
    ∀ name ∈ names, s.ApprovedBy name

/-- Nobody but groups has members. Validation sees to it, and the count looks for members nowhere
else. -/
def MembersInGroups (s : Spec) : Prop := ∀ a ∈ s.approvers, a.members ≠ [] → a.kind = .group

theorem WellFormed.membersInGroups (h : s.WellFormed) : s.MembersInGroups :=
  fun a ha => (h.approvers_wellFormed a ha).group_of_members

end Spec

theorem Approver.mem_approving_iff : name ∈ a.approving ↔ a.ApprovedBy name := by
  unfold approving ApprovedBy
  cases hkind : a.kind with
  | user =>
    by_cases hvote : a.vote = .approve
    · simp [hvote, eq_comm]
    · simp [hvote]
  | group =>
    simp only [List.mem_map, List.mem_filter, decide_eq_true_eq, reduceCtorEq, false_and, true_and,
      false_or]
    constructor
    · intro h
      obtain ⟨⟨n, v⟩, ⟨hm, rfl⟩, rfl⟩ := h
      exact hm
    · intro hm
      exact ⟨_, ⟨hm, rfl⟩, rfl⟩
  | other text => simp

theorem Approver.rejects_iff (h : a.members ≠ [] → a.kind = .group) :
    a.rejects = true ↔ a.HoldsReject := by
  simp only [rejects, HoldsReject, Bool.or_eq_true, Bool.and_eq_true, decide_eq_true_eq,
    List.any_eq_true]
  constructor
  · intro h
    rcases h with hvote | ⟨-, hmember⟩
    · exact .inl hvote
    · exact .inr hmember
  · intro h
    rcases h with hvote | ⟨m, hm, hvote⟩
    · exact .inl hvote
    · exact .inr ⟨h (List.ne_nil_of_mem hm), m, hm, hvote⟩

theorem NameSet.nodup (s : NameSet) : s.names.Nodup := by
  refine List.Pairwise.imp ?_ s.sorted
  rintro m n hlt rfl
  exact String.lt_irrefl m hlt

namespace Spec

theorem mem_approving_iff : name ∈ s.tally.approving ↔ s.ApprovedBy name := by
  simp only [tally, NameSet.mem_ofList, List.mem_flatMap, Approver.mem_approving_iff, ApprovedBy]

theorem meets_iff : s.tally.meets s.required = true ↔ s.HasQuorum := by
  unfold Tally.meets Tally.received HasQuorum
  rw [Bool.and_eq_true, decide_eq_true_eq, decide_eq_true_eq]
  refine and_congr_right fun _ => ⟨fun hmeets => ?_, ?_⟩
  · exact ⟨s.tally.approving.names, s.tally.approving.nodup, hmeets,
      fun _ hname => mem_approving_iff.mp hname⟩
  · intro h
    obtain ⟨names, hnodup, hrequired, happroved⟩ := h
    have hsubset : names ⊆ s.tally.approving.names := fun name hname =>
      mem_approving_iff.mpr (happroved name hname)
    have hlength : names.length ≤ s.tally.approving.size :=
      (List.subperm_of_subset hnodup hsubset).length_le
    omega

theorem rejected_iff (h : s.MembersInGroups) : s.tally.rejected = true ↔ s.HoldsReject := by
  simp only [tally, List.any_eq_true]
  constructor
  · intro h
    obtain ⟨a, ha, hrejects⟩ := h
    exact ⟨a, ha, (Approver.rejects_iff (h a ha)).mp hrejects⟩
  · intro h
    obtain ⟨a, ha, hholds⟩ := h
    exact ⟨a, ha, (Approver.rejects_iff (h a ha)).mpr hholds⟩

theorem state_eq_rejected_iff (h : s.MembersInGroups) :
    s.tally.state s.required = .rejected ↔ s.HoldsReject := by
  rw [← rejected_iff h]
  unfold Tally.state
  by_cases hrejected : s.tally.rejected = true
  · simp [hrejected]
  · by_cases hmeets : s.tally.meets s.required = true
    · simp [hrejected, hmeets]
    · simp [hrejected, hmeets]

theorem state_eq_approved_iff (h : s.MembersInGroups) :
    s.tally.state s.required = .approved ↔ s.HasQuorum ∧ ¬ s.HoldsReject := by
  rw [← rejected_iff h, ← meets_iff]
  unfold Tally.state
  by_cases hrejected : s.tally.rejected = true
  · simp [hrejected]
  · by_cases hmeets : s.tally.meets s.required = true
    · simp [hrejected, hmeets]
    · simp [hrejected, hmeets]

end Spec
end Quorum
