import Mathlib.Data.List.Permutation
import Quorum.Change

/-!
# What the changes between two specifications say

Where neither specification repeats an approver and both have the same ones, the changes are those
between approvers of one key (`Spec.mem_changesTo_iff`); where no member is repeated or dropped,
these are a new vote, a new message, a new member or a member's new vote
(`Change.mem_ofApprover_iff`). Everything else is reported as a change that is nobody's vote
(`Change.isStructural`).
-/
namespace Quorum

/-- Items of distinct keys are found by their keys. -/
theorem find?_key_eq_some_iff [DecidableEq κ] {key : α → κ} {as : List α} {k : κ} {a : α}
    (distinct : (as.map key).Nodup) :
    as.find? (fun x => key x = k) = some a ↔ a ∈ as ∧ key a = k := by
  constructor
  · intro h
    exact ⟨List.mem_of_find?_eq_some h, by simpa using List.find?_some h⟩
  · intro h
    obtain ⟨hmem, rfl⟩ := h
    induction as with
    | nil => simp at hmem
    | cons b as ih =>
      obtain ⟨hb, hdistinct⟩ := List.nodup_cons.mp distinct
      rw [List.find?_cons]
      rcases List.mem_cons.mp hmem with rfl | hmem
      · simp
      · have hne : key b ≠ key a := fun h => hb (h ▸ List.mem_map_of_mem hmem)
        simp [hne, ih hdistinct hmem]

namespace Change

section Keyed
variable {α κ : Type} [DecidableEq κ] {key : α → κ}

theorem repeats_eq_nil_iff {seen : List κ} {as : List α} :
    repeats key seen as = [] ↔ (as.map key).Nodup ∧ ∀ a ∈ as, key a ∉ seen := by
  induction as generalizing seen with
  | nil => simp [repeats]
  | cons a as ih =>
    rw [repeats]
    split
    · next h =>
      simp only [reduceCtorEq, false_iff, not_and]
      exact fun _ hseen => hseen a List.mem_cons_self h
    · next h =>
      rw [ih]
      simp only [List.map_cons, List.nodup_cons, List.mem_map, List.mem_cons, not_or]
      constructor
      · intro h
        obtain ⟨hdistinct, hseen⟩ := h
        refine ⟨⟨?_, hdistinct⟩, ?_⟩
        · intro h
          obtain ⟨b, hb, hab⟩ := h
          exact (hseen b hb).1 hab
        · rintro b (rfl | hb)
          · exact h
          · exact (hseen b hb).2
      · intro h
        obtain ⟨⟨hfirst, hdistinct⟩, hseen⟩ := h
        exact ⟨hdistinct, fun b hb => ⟨fun hab => hfirst ⟨b, hb, hab⟩, hseen b (.inr hb)⟩⟩

theorem firsts_eq_self {seen : List κ} {as : List α} (h : repeats key seen as = []) :
    firsts key seen as = as := by
  induction as generalizing seen with
  | nil => rfl
  | cons a as ih =>
    rw [repeats] at h
    split at h
    · cases h
    · next hnew => rw [firsts, if_neg hnew, ih h]

theorem repeats_nil_eq_nil_iff {as : List α} :
    repeats key [] as = [] ↔ (as.map key).Nodup := by
  simp [repeats_eq_nil_iff]

end Keyed

/-- A change of something else than a vote, a message or the set of voters. -/
def isStructural : Change → Bool
  | required | description | approverAdded _ | approverRemoved _ | memberRemoved _ _ => true
  | vote _ _ | message _ | memberAdded _ _ _ | memberVote _ _ _ => false

/-- Where nothing structural is reported, no list of structural changes is. -/
theorem eq_nil_of_map_subset {f : β → Change} {bs : List β} {cs : List Change}
    (hf : ∀ b, (f b).isStructural = true) (hcs : ∀ c ∈ cs, c.isStructural = false)
    (hsub : bs.map f ⊆ cs) : bs = [] := by
  cases bs with
  | nil => rfl
  | cons b bs =>
    have hplain := hcs (f b) (hsub List.mem_cons_self)
    rw [hf b] at hplain
    cases hplain

@[simp] theorem mem_whenChanged_iff [DecidableEq α] {old new : α} {c d : Change} :
    d ∈ whenChanged old new c ↔ old ≠ new ∧ d = c := by
  rw [whenChanged]
  split <;> simp_all

end Change

namespace Approver

theorem memberIndex_perm {a : Approver} (distinct : (a.members.map (·.name)).Nodup) :
    a.memberIndex.Perm a.members := by
  rw [memberIndex, Change.firsts_eq_self (Change.repeats_nil_eq_nil_iff.mpr distinct)]
  exact List.mergeSort_perm ..

theorem member?_eq_some_iff {a : Approver} (distinct : (a.members.map (·.name)).Nodup)
    {name : String} {m : Member} : a.member? name = some m ↔ m ∈ a.members ∧ m.name = name :=
  find?_key_eq_some_iff distinct

theorem member?_isSome_iff {a : Approver} {name : String} :
    (a.member? name).isSome = true ↔ ∃ m ∈ a.members, m.name = name := by
  simp [member?]

/-- From `old` to `new` no member is dropped, and neither of them repeats one. -/
structure KeepsMembers (old new : Approver) : Prop where
  old_distinct : (old.members.map (·.name)).Nodup
  new_distinct : (new.members.map (·.name)).Nodup
  kept : ∀ m ∈ old.members, ∃ n ∈ new.members, n.name = m.name

end Approver

namespace Change

theorem mem_ofMember_iff {old : Approver} (distinct : (old.members.map (·.name)).Nodup)
    {m : Member} {group : String} {c : Change} :
    c ∈ ofMember old m group ↔
      ((∀ o ∈ old.members, o.name ≠ m.name) ∧ c = .memberAdded group m.name m.vote) ∨
      ∃ o ∈ old.members, o.name = m.name ∧ o.vote ≠ m.vote ∧
        c = .memberVote group m.name m.vote := by
  have hperm := Approver.memberIndex_perm distinct
  have hdistinct : (old.memberIndex.map (·.name)).Nodup := (hperm.map _).nodup_iff.mpr distinct
  rw [ofMember]
  cases hfind : old.memberIndex.find? (·.name = m.name) with
  | none =>
    have hnone : ∀ o ∈ old.members, o.name ≠ m.name := by
      simpa [hperm.mem_iff] using hfind
    constructor
    · intro h
      exact .inl ⟨hnone, by simpa using h⟩
    · intro h
      rcases h with ⟨-, rfl⟩ | ⟨o, ho, hname, -⟩
      · simp
      · exact absurd hname (hnone o ho)
  | some o =>
    obtain ⟨ho, hname⟩ := (find?_key_eq_some_iff hdistinct).mp hfind
    rw [hperm.mem_iff] at ho
    simp only [mem_whenChanged_iff]
    constructor
    · intro h
      obtain ⟨hvote, rfl⟩ := h
      exact .inr ⟨o, ho, hname, hvote, rfl⟩
    · intro h
      rcases h with ⟨hnone, -⟩ | ⟨o', ho', hname', hvote, rfl⟩
      · exact absurd hname (hnone o ho)
      · obtain rfl : o' = o :=
          List.inj_on_of_nodup_map distinct ho' ho (hname'.trans hname.symm)
        exact ⟨hvote, rfl⟩

/-- A vote, a message, a new member or a member's vote. -/
theorem mem_ofApprover_iff {old new : Approver} (h : old.KeepsMembers new) {c : Change} :
    c ∈ ofApprover old new ↔
      (old.vote ≠ new.vote ∧ c = .vote new.key new.vote) ∨
      (old.message ≠ new.message ∧ c = .message new.key) ∨
      ∃ m ∈ new.members,
        ((∀ o ∈ old.members, o.name ≠ m.name) ∧ c = .memberAdded new.name m.name m.vote) ∨
        ∃ o ∈ old.members, o.name = m.name ∧ o.vote ≠ m.vote ∧
          c = .memberVote new.name m.name m.vote := by
  have hnew := Approver.memberIndex_perm h.new_distinct
  have hold := Approver.memberIndex_perm h.old_distinct
  have hdropped :
      (old.memberIndex.filter fun m => !new.memberIndex.any (·.name = m.name)) = [] := by
    rw [List.filter_eq_nil_iff]
    intro m hm
    obtain ⟨n, hn, hname⟩ := h.kept m (hold.mem_iff.mp hm)
    simpa using ⟨n, hnew.mem_iff.mpr hn, hname⟩
  rw [ofApprover, repeats_nil_eq_nil_iff.mpr h.old_distinct,
    repeats_nil_eq_nil_iff.mpr h.new_distinct, hdropped]
  simp only [List.map_nil, List.append_nil, List.mem_append, mem_whenChanged_iff, or_assoc,
    List.mem_flatMap, hnew.mem_iff, mem_ofMember_iff h.old_distinct]

/-- Members of `old` that are repeated or dropped are reported as removed. -/
theorem keepsMembers_of_changes {old new : Approver}
    (new_distinct : (new.members.map (·.name)).Nodup)
    (h : ∀ c ∈ ofApprover old new, c.isStructural = false) : old.KeepsMembers new := by
  have hold : (old.members.map (·.name)).Nodup := by
    refine repeats_nil_eq_nil_iff.mp
      (eq_nil_of_map_subset (f := fun m => memberRemoved new.name m.name) (fun _ => rfl) h ?_)
    intro c hc
    simp only [ofApprover, List.mem_append]
    tauto
  refine ⟨hold, new_distinct, fun m hm => ?_⟩
  have hkept : (old.memberIndex.filter fun m => !new.memberIndex.any (·.name = m.name)) = [] := by
    refine eq_nil_of_map_subset (f := fun m => memberRemoved new.name m.name) (fun _ => rfl) h ?_
    intro c hc
    simp only [ofApprover, List.mem_append]
    tauto
  have hm' := List.filter_eq_nil_iff.mp hkept m
    ((Approver.memberIndex_perm hold).mem_iff.mpr hm)
  simpa [(Approver.memberIndex_perm new_distinct).mem_iff] using hm'

end Change

namespace Spec

theorem index_perm {s : Spec} (distinct : (s.approvers.map Approver.key).Nodup) :
    s.index.Perm s.approvers := by
  rw [index, Change.firsts_eq_self (Change.repeats_nil_eq_nil_iff.mpr distinct)]
  exact List.mergeSort_perm ..

theorem approver?_eq_some_iff {s : Spec} (distinct : (s.approvers.map Approver.key).Nodup)
    {kind : Approver.Kind} {name : String} {a : Approver} :
    s.approver? kind name = some a ↔ a ∈ s.approvers ∧ a.key = ⟨kind, name⟩ := by
  rw [← find?_key_eq_some_iff distinct, approver?]
  simp [Approver.key]

/-- The same approvers, none of them repeated, asked for the same number of approvals. -/
structure SameShape (old new : Spec) : Prop where
  required_eq : old.required = new.required
  description_eq : old.description = new.description
  old_distinct : (old.approvers.map Approver.key).Nodup
  new_distinct : (new.approvers.map Approver.key).Nodup
  keys : ∀ key, key ∈ old.approvers.map Approver.key ↔ key ∈ new.approvers.map Approver.key

theorem SameShape.new_of_old {old new : Spec} (h : old.SameShape new) {o : Approver}
    (ho : o ∈ old.approvers) : ∃ n ∈ new.approvers, o.key = n.key := by
  obtain ⟨n, hn, hkey⟩ := List.mem_map.mp ((h.keys o.key).mp (List.mem_map_of_mem ho))
  exact ⟨n, hn, hkey.symm⟩

theorem SameShape.old_of_new {old new : Spec} (h : old.SameShape new) {n : Approver}
    (hn : n ∈ new.approvers) : ∃ o ∈ old.approvers, o.key = n.key := by
  obtain ⟨o, ho, hkey⟩ := List.mem_map.mp ((h.keys n.key).mpr (List.mem_map_of_mem hn))
  exact ⟨o, ho, hkey⟩

open Change in
theorem mem_changesTo_iff {old new : Spec} (h : old.SameShape new) {c : Change} :
    c ∈ old.changesTo new ↔
      ∃ o ∈ old.approvers, ∃ n ∈ new.approvers, o.key = n.key ∧ c ∈ ofApprover o n := by
  have hold := index_perm h.old_distinct
  have hnew := index_perm h.new_distinct
  have hdistinct : (old.index.map Approver.key).Nodup :=
    (hold.map _).nodup_iff.mpr h.old_distinct
  have hdropped : old.index.filter (fun a => !new.index.any (·.key = a.key)) = [] := by
    rw [List.filter_eq_nil_iff]
    intro o ho
    obtain ⟨n, hn, hkey⟩ := h.new_of_old (hold.mem_iff.mp ho)
    simpa using ⟨n, hnew.mem_iff.mpr hn, hkey.symm⟩
  rw [changesTo, repeats_nil_eq_nil_iff.mpr h.old_distinct,
    repeats_nil_eq_nil_iff.mpr h.new_distinct, hdropped]
  simp only [List.map_nil, List.append_nil, List.mem_append, mem_whenChanged_iff, h.required_eq,
    h.description_eq, ne_eq, not_true_eq_false, false_and, false_or, List.mem_flatMap,
    hnew.mem_iff]
  constructor
  · intro h
    obtain ⟨n, hn, hc⟩ := h
    obtain ⟨o, ho, hkey⟩ := h.old_of_new hn
    rw [(find?_key_eq_some_iff hdistinct).mpr ⟨hold.mem_iff.mpr ho, hkey⟩] at hc
    exact ⟨o, ho, n, hn, hkey, hc⟩
  · intro h
    obtain ⟨o, ho, n, hn, hkey, hc⟩ := h
    refine ⟨n, hn, ?_⟩
    rw [(find?_key_eq_some_iff hdistinct).mpr ⟨hold.mem_iff.mpr ho, hkey⟩]
    exact hc

open Change in
/-- Whatever else differs is reported as a structural change. -/
theorem sameShape_of_changes {old new : Spec}
    (h : ∀ c ∈ old.changesTo new, c.isStructural = false) : old.SameShape new := by
  have hold : (old.approvers.map Approver.key).Nodup := by
    refine repeats_nil_eq_nil_iff.mp
      (eq_nil_of_map_subset (f := fun a => approverRemoved a.key) (fun _ => rfl) h ?_)
    intro c hc
    simp only [changesTo, List.mem_append]
    tauto
  have hnew : (new.approvers.map Approver.key).Nodup := by
    refine repeats_nil_eq_nil_iff.mp
      (eq_nil_of_map_subset (f := fun a => approverAdded a.key) (fun _ => rfl) h ?_)
    intro c hc
    simp only [changesTo, List.mem_append]
    tauto
  have hkept : (old.index.filter fun a => !new.index.any (·.key = a.key)) = [] := by
    refine eq_nil_of_map_subset (f := fun a => approverRemoved a.key) (fun _ => rfl) h ?_
    intro c hc
    simp only [changesTo, List.mem_append]
    tauto
  refine ⟨?_, ?_, hold, hnew, fun key => ⟨fun hkey => ?_, fun hkey => ?_⟩⟩
  · by_contra hne
    have hmem : Change.required ∈ old.changesTo new := by
      simp [changesTo, hne]
    exact absurd (h _ hmem) (by simp [isStructural])
  · by_contra hne
    have hmem : Change.description ∈ old.changesTo new := by
      simp [changesTo, hne]
    exact absurd (h _ hmem) (by simp [isStructural])
  · obtain ⟨o, ho, rfl⟩ := List.mem_map.mp hkey
    have ho' := List.filter_eq_nil_iff.mp hkept o ((index_perm hold).mem_iff.mpr ho)
    simpa [(index_perm hnew).mem_iff] using ho'
  · obtain ⟨n, hn, rfl⟩ := List.mem_map.mp hkey
    by_contra hmissing
    have hnone : old.index.find? (·.key = n.key) = none := by
      rw [List.find?_eq_none]
      intro o ho hkey
      exact hmissing (List.mem_map.mpr ⟨o, (index_perm hold).mem_iff.mp ho, by simpa using hkey⟩)
    have hmem : approverAdded n.key ∈ old.changesTo new := by
      simp only [changesTo, List.mem_append]
      right
      exact List.mem_flatMap.mpr ⟨n, (index_perm hnew).mem_iff.mpr hn, by simp [hnone]⟩
    exact absurd (h _ hmem) (by simp [isStructural])

end Spec
end Quorum
