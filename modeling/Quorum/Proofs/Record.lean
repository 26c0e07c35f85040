import Quorum.Guard

/-!
# Whose decisions are on record

A decision is on record for the user it names, for the member who made it, and, where a group keeps
no records, for everyone who claims the group.
-/
namespace Quorum.Guard
variable {s : Spec} {p : Principal} {a : Approver} {r : Outcome}

/-- The first of the three ways in which a decision is on record for a principal: as the vote of
their own entry. -/
theorem mem_recordedInSpec_of_user (ha : a ∈ s.approvers) (hkind : a.kind = .user)
    (hname : a.name = p.username) (hvote : a.vote.outcome? = some r) :
    r ∈ recordedInSpec s p := by
  refine List.mem_flatMap.mpr ⟨a, ha, ?_⟩
  simp [hkind, hname, hvote]

theorem mem_recordedInSpec_of_member (ha : a ∈ s.approvers) (hkind : a.kind = .group)
    {m : Member} (hm : m ∈ a.members) (hname : m.name = p.username)
    (hvote : m.vote.outcome? = some r) : r ∈ recordedInSpec s p := by
  refine List.mem_flatMap.mpr ⟨a, ha, ?_⟩
  simp only [hkind, List.isEmpty_iff, List.ne_nil_of_mem hm, if_false]
  exact List.mem_filterMap.mpr ⟨m, List.mem_filter.mpr ⟨hm, by simp [hname]⟩, hvote⟩

/-- A group without records speaks for everyone who claims it, so its vote is on record for them,
whoever cast it. -/
theorem mem_recordedInSpec_of_claim (ha : a ∈ s.approvers) (hkind : a.kind = .group)
    (hmembers : a.members = []) (hclaims : p.claims a.name = true)
    (hvote : a.vote.outcome? = some r) : r ∈ recordedInSpec s p := by
  refine List.mem_flatMap.mpr ⟨a, ha, ?_⟩
  simp [hkind, hmembers, hclaims, hvote]

theorem mem_recorded_of_spec {t : Task} (h : r ∈ recordedInSpec t.spec p) : r ∈ recorded t p :=
  List.mem_append_left _ h

end Quorum.Guard
