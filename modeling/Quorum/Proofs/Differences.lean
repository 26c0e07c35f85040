import Mathlib.Data.List.Duplicate
import Quorum.Proofs.Change

/-!
# Changes are the differences

Between two specifications nothing changes exactly if neither repeats an approver or a member and
both say the same of the same ones (`Spec.changesTo_eq_nil_iff`). What is reported is so: a removed
approver or member stands in the old specification and is gone from the new one or repeated, and
everything else stands in the new one (`Change.Holds`). All of it together is
`Spec.changes_are_differences`.
-/
namespace Quorum

namespace Change

section Keyed
variable {α κ : Type} [DecidableEq κ] {key : α → κ} {seen : List κ} {as : List α} {a : α} {k : κ}

theorem firsts_sublist : (firsts key seen as).Sublist as := by
  induction as generalizing seen with
  | nil => exact .slnil
  | cons a as ih =>
    rw [firsts]
    split
    · exact ih.cons a
    · exact ih.cons_cons a

theorem repeats_sublist : (repeats key seen as).Sublist as := by
  induction as generalizing seen with
  | nil => exact .slnil
  | cons a as ih =>
    rw [repeats]
    split
    · exact ih.cons_cons a
    · exact ih.cons a

/-- The first items have all the keys that were not seen before. -/
theorem mem_map_firsts_iff :
    k ∈ (firsts key seen as).map key ↔ k ∉ seen ∧ k ∈ as.map key := by
  induction as generalizing seen with
  | nil => simp [firsts]
  | cons a as ih =>
    rw [firsts, List.map_cons, List.mem_cons]
    split
    · next hseen =>
      rw [ih]
      constructor
      · rintro ⟨hk, hmem⟩
        exact ⟨hk, .inr hmem⟩
      · rintro ⟨hk, rfl | hmem⟩
        · exact absurd hseen hk
        · exact ⟨hk, hmem⟩
    · next hnew =>
      rw [List.map_cons, List.mem_cons, ih, List.mem_cons, not_or]
      constructor
      · rintro (rfl | ⟨⟨-, hk⟩, hmem⟩)
        · exact ⟨hnew, .inl rfl⟩
        · exact ⟨hk, .inr hmem⟩
      · rintro ⟨hk, rfl | hmem⟩
        · exact .inl rfl
        · by_cases heq : k = key a
          · exact .inl heq
          · exact .inr ⟨⟨heq, hk⟩, hmem⟩

/-- A key is repeated if it was seen before or stands there twice. -/
theorem mem_map_repeats_iff :
    k ∈ (repeats key seen as).map key ↔
      k ∈ seen ∧ k ∈ as.map key ∨ (as.map key).Duplicate k := by
  induction as generalizing seen with
  | nil => simp [repeats]
  | cons a as ih =>
    rw [repeats, List.map_cons, List.duplicate_cons_iff, List.mem_cons]
    split
    · next hseen =>
      rw [List.map_cons, List.mem_cons, ih]
      constructor
      · rintro (rfl | ⟨hk, hmem⟩ | htwice)
        · exact .inl ⟨hseen, .inl rfl⟩
        · exact .inl ⟨hk, .inr hmem⟩
        · exact .inr (.inr htwice)
      · rintro (⟨hk, rfl | hmem⟩ | ⟨rfl, -⟩ | htwice)
        · exact .inl rfl
        · exact .inr (.inl ⟨hk, hmem⟩)
        · exact .inl rfl
        · exact .inr (.inr htwice)
    · next hnew =>
      rw [ih, List.mem_cons]
      constructor
      · rintro (⟨rfl | hk, hmem⟩ | htwice)
        · exact .inr (.inl ⟨rfl, hmem⟩)
        · exact .inl ⟨hk, .inr hmem⟩
        · exact .inr (.inr htwice)
      · rintro (⟨hk, rfl | hmem⟩ | ⟨rfl, hmem⟩ | htwice)
        · exact absurd hk hnew
        · exact .inl ⟨.inr hk, hmem⟩
        · exact .inl ⟨.inl rfl, hmem⟩
        · exact .inr htwice

theorem duplicate_iff_mem_repeats :
    (as.map key).Duplicate k ↔ ∃ a ∈ repeats key [] as, key a = k := by
  rw [← List.mem_map, mem_map_repeats_iff]
  simp

end Keyed
end Change

theorem Approver.memberIndex_subset (a : Approver) : a.memberIndex ⊆ a.members := fun _ hm =>
  Change.firsts_sublist.subset (List.mem_mergeSort.mp hm)

theorem Spec.index_subset (s : Spec) : s.index ⊆ s.approvers := fun _ ha =>
  Change.firsts_sublist.subset (List.mem_mergeSort.mp ha)

theorem Approver.mem_names_memberIndex_iff {a : Approver} {name : String} :
    (∃ m ∈ a.memberIndex, m.name = name) ↔ ∃ m ∈ a.members, m.name = name := by
  simp only [memberIndex, List.mem_mergeSort]
  rw [← List.mem_map, ← List.mem_map, Change.mem_map_firsts_iff]
  simp

theorem Spec.mem_keys_index_iff {s : Spec} {key : Approver.Key} :
    (∃ a ∈ s.index, a.key = key) ↔ ∃ a ∈ s.approvers, a.key = key := by
  simp only [index, List.mem_mergeSort]
  rw [← List.mem_map, ← List.mem_map, Change.mem_map_firsts_iff]
  simp

/-- Of two approvers of one key neither repeats a member, and there is nothing to tell them apart
but the order of the members. -/
structure Approver.Unchanged (old new : Approver) : Prop where
  vote_eq : old.vote = new.vote
  message_eq : old.message = new.message
  old_distinct : (old.members.map (·.name)).Nodup
  new_distinct : (new.members.map (·.name)).Nodup
  members : ∀ m, m ∈ old.members ↔ m ∈ new.members

/-- The same approvers, none of them repeated, with the same votes, messages and members. -/
structure Spec.Unchanged (old new : Spec) : Prop extends old.SameShape new where
  approvers : ∀ o ∈ old.approvers, ∀ n ∈ new.approvers, o.key = n.key → o.Unchanged n

namespace Change
variable {old new : Approver}

theorem new_distinct_of_nil (h : ofApprover old new = []) :
    (new.members.map (·.name)).Nodup := by
  simp only [ofApprover, List.append_eq_nil_iff, List.map_eq_nil_iff] at h
  obtain ⟨⟨⟨⟨⟨-, -⟩, -⟩, hrepeats⟩, -⟩, -⟩ := h
  exact repeats_nil_eq_nil_iff.mp hrepeats

theorem unchanged_of_nil (hnil : ofApprover old new = []) : old.Unchanged new := by
  have hkeeps : old.KeepsMembers new :=
    keepsMembers_of_changes (new_distinct_of_nil hnil) (by simp [hnil])
  have hnone (c : Change) : c ∉ ofApprover old new := by simp [hnil]
  simp only [mem_ofApprover_iff hkeeps, not_or, not_exists, not_and] at hnone
  -- whatever were different would be one of the changes
  have hvote : old.vote = new.vote := by
    by_contra hne
    exact (hnone (.vote new.key new.vote)).1 hne rfl
  have hmessage : old.message = new.message := by
    by_contra hne
    exact (hnone (.message new.key)).2.1 hne rfl
  have hmember (o n : Member) (ho : o ∈ old.members) (hn : n ∈ new.members)
      (hname : o.name = n.name) : o = n := by
    have hsame : o.vote = n.vote := by
      by_contra hne
      exact ((hnone (.memberVote new.name n.name n.vote)).2.2 n hn).2 o ho hname hne rfl
    cases o
    cases n
    cases hname
    cases hsame
    rfl
  refine ⟨hvote, hmessage, hkeeps.old_distinct, hkeeps.new_distinct, fun m => ?_⟩
  constructor
  · intro hm
    obtain ⟨n, hn, hname⟩ := hkeeps.kept m hm
    rwa [hmember m n hm hn hname.symm]
  · intro hm
    have hknown : ∃ o ∈ old.members, o.name = m.name := by
      by_contra hnew
      refine ((hnone (.memberAdded new.name m.name m.vote)).2.2 m hm).1 (fun o ho hname => ?_) rfl
      exact hnew ⟨o, ho, hname⟩
    obtain ⟨o, ho, hname⟩ := hknown
    rwa [← hmember o m ho hm hname]

theorem nil_of_unchanged (h : old.Unchanged new) : ofApprover old new = [] := by
  have hkeeps : old.KeepsMembers new :=
    ⟨h.old_distinct, h.new_distinct, fun m hm => ⟨m, (h.members m).mp hm, rfl⟩⟩
  refine List.eq_nil_iff_forall_not_mem.mpr fun c hc => ?_
  rcases (mem_ofApprover_iff hkeeps).mp hc with ⟨hne, -⟩ | ⟨hne, -⟩ | ⟨m, hm, hmember⟩
  · exact hne h.vote_eq
  · exact hne h.message_eq
  · rcases hmember with ⟨hnew, -⟩ | ⟨o, ho, hname, hne, -⟩
    · exact hnew m ((h.members m).mpr hm) rfl
    · obtain rfl : o = m :=
        List.inj_on_of_nodup_map h.new_distinct ((h.members o).mp ho) hm hname
      exact hne rfl

theorem ofApprover_eq_nil_iff : ofApprover old new = [] ↔ old.Unchanged new :=
  ⟨unchanged_of_nil, nil_of_unchanged⟩

end Change

namespace Spec
variable {old new : Spec}

theorem changesTo_eq_nil_iff : old.changesTo new = [] ↔ old.Unchanged new := by
  constructor
  · intro hnil
    have hshape : old.SameShape new := sameShape_of_changes (by simp [hnil])
    refine ⟨hshape, fun o ho n hn hkey => ?_⟩
    rw [← Change.ofApprover_eq_nil_iff]
    refine List.eq_nil_iff_forall_not_mem.mpr fun c hc => ?_
    have hmem : c ∈ old.changesTo new := (mem_changesTo_iff hshape).mpr ⟨o, ho, n, hn, hkey, hc⟩
    rw [hnil] at hmem
    cases hmem
  · intro h
    refine List.eq_nil_iff_forall_not_mem.mpr fun c hc => ?_
    obtain ⟨o, ho, n, hn, hkey, hmem⟩ := (mem_changesTo_iff h.toSameShape).mp hc
    rw [Change.ofApprover_eq_nil_iff.mpr (h.approvers o ho n hn hkey)] at hmem
    cases hmem

end Spec

/-- What a change says of the two specifications. It is read off the specifications themselves and
not off the way the changes were found. -/
def Change.Holds (old new : Spec) : Change → Prop
  | required => old.required ≠ new.required
  | description => old.description ≠ new.description
  | approverAdded key =>
    (∃ n ∈ new.approvers, n.key = key) ∧
      ((∀ o ∈ old.approvers, o.key ≠ key) ∨ (new.approvers.map Approver.key).Duplicate key)
  | approverRemoved key =>
    (∃ o ∈ old.approvers, o.key = key) ∧
      ((∀ n ∈ new.approvers, n.key ≠ key) ∨ (old.approvers.map Approver.key).Duplicate key)
  | vote key v =>
    ∃ o ∈ old.approvers, ∃ n ∈ new.approvers, o.key = key ∧ n.key = key ∧ n.vote = v ∧ o.vote ≠ v
  | message key =>
    ∃ o ∈ old.approvers, ∃ n ∈ new.approvers, o.key = key ∧ n.key = key ∧ o.message ≠ n.message
  | memberAdded group member v =>
    ∃ o ∈ old.approvers, ∃ n ∈ new.approvers, o.key = n.key ∧ n.name = group ∧
      ⟨member, v⟩ ∈ n.members ∧
      ((∀ m ∈ o.members, m.name ≠ member) ∨ (n.members.map (·.name)).Duplicate member)
  | memberRemoved group member =>
    ∃ o ∈ old.approvers, ∃ n ∈ new.approvers, o.key = n.key ∧ o.name = group ∧
      (∃ m ∈ o.members, m.name = member) ∧
      ((∀ m ∈ n.members, m.name ≠ member) ∨ (o.members.map (·.name)).Duplicate member)
  | memberVote group member v =>
    ∃ o ∈ old.approvers, ∃ n ∈ new.approvers, o.key = n.key ∧ n.name = group ∧
      ⟨member, v⟩ ∈ n.members ∧ ∃ m ∈ o.members, m.name = member ∧ m.vote ≠ v

namespace Change
variable {old new : Spec} {o n : Approver} {c : Change}

/-- Where no member of the index has the name, no member has. -/
theorem names_ne_of_any {a : Approver} {name : String}
    (h : (!a.memberIndex.any (·.name = name)) = true) : ∀ m ∈ a.members, m.name ≠ name := by
  intro m hm hname
  obtain ⟨m', hm', hname'⟩ := Approver.mem_names_memberIndex_iff.mpr ⟨m, hm, hname⟩
  rw [Bool.not_eq_true', List.any_eq_false] at h
  exact h m' hm' (by simpa using hname')

theorem holds_of_mem_ofMember (ho : o ∈ old.approvers) (hn : n ∈ new.approvers)
    (hkey : o.key = n.key) {m : Member} (hm : m ∈ n.members) (hc : c ∈ ofMember o m n.name) :
    c.Holds old new := by
  rw [ofMember] at hc
  split at hc
  · next p hfind =>
    have hp : p ∈ o.members := o.memberIndex_subset (List.mem_of_find?_eq_some hfind)
    have hname : p.name = m.name := by simpa using List.find?_some hfind
    obtain ⟨hvote, rfl⟩ := mem_whenChanged_iff.mp hc
    exact ⟨o, ho, n, hn, hkey, rfl, hm, p, hp, hname, hvote⟩
  · next hnone =>
    obtain rfl := List.mem_singleton.mp hc
    refine ⟨o, ho, n, hn, hkey, rfl, hm, .inl fun p hp hname => ?_⟩
    obtain ⟨p', hp', hname'⟩ := Approver.mem_names_memberIndex_iff.mpr ⟨p, hp, hname⟩
    exact List.find?_eq_none.mp hnone p' hp' (by simpa using hname')

theorem holds_of_mem_ofApprover (ho : o ∈ old.approvers) (hn : n ∈ new.approvers)
    (hkey : o.key = n.key) (hc : c ∈ ofApprover o n) : c.Holds old new := by
  have hname : o.name = n.name := congrArg Approver.Key.name hkey
  simp only [ofApprover, List.mem_append, mem_whenChanged_iff, List.mem_map, List.mem_filter,
    List.mem_flatMap] at hc
  rcases hc with ((((⟨hvote, rfl⟩ | ⟨hmessage, rfl⟩) | ⟨m, hm, rfl⟩) | ⟨m, hm, rfl⟩) |
    ⟨m, ⟨hm, hgone⟩, rfl⟩) | ⟨m, hm, hc⟩
  · exact ⟨o, ho, n, hn, hkey, rfl, rfl, hvote⟩
  · exact ⟨o, ho, n, hn, hkey, rfl, hmessage⟩
  · exact ⟨o, ho, n, hn, hkey, hname, ⟨m, repeats_sublist.subset hm, rfl⟩,
      .inr (duplicate_iff_mem_repeats.mpr ⟨m, hm, rfl⟩)⟩
  · exact ⟨o, ho, n, hn, hkey, rfl, repeats_sublist.subset hm,
      .inr (duplicate_iff_mem_repeats.mpr ⟨m, hm, rfl⟩)⟩
  · exact ⟨o, ho, n, hn, hkey, hname, ⟨m, o.memberIndex_subset hm, rfl⟩,
      .inl (names_ne_of_any hgone)⟩
  · exact holds_of_mem_ofMember ho hn hkey (n.memberIndex_subset hm) hc

theorem holds_of_mem_changesTo (hc : c ∈ old.changesTo new) : c.Holds old new := by
  simp only [Spec.changesTo, List.mem_append, mem_whenChanged_iff, List.mem_map, List.mem_filter,
    List.mem_flatMap] at hc
  rcases hc with ((((⟨hrequired, rfl⟩ | ⟨hdescription, rfl⟩) | ⟨o, ho, rfl⟩) | ⟨n, hn, rfl⟩) |
    ⟨o, ⟨ho, hgone⟩, rfl⟩) | ⟨n, hn, hc⟩
  · exact hrequired
  · exact hdescription
  · exact ⟨⟨o, repeats_sublist.subset ho, rfl⟩,
      .inr (duplicate_iff_mem_repeats.mpr ⟨o, ho, rfl⟩)⟩
  · exact ⟨⟨n, repeats_sublist.subset hn, rfl⟩,
      .inr (duplicate_iff_mem_repeats.mpr ⟨n, hn, rfl⟩)⟩
  · refine ⟨⟨o, old.index_subset ho, rfl⟩, .inl fun n hn hkey => ?_⟩
    obtain ⟨n', hn', hkey'⟩ := Spec.mem_keys_index_iff.mpr ⟨n, hn, hkey⟩
    rw [Bool.not_eq_true', List.any_eq_false] at hgone
    exact hgone n' hn' (by simpa using hkey')
  · split at hc
    · next o hfind =>
      have ho : o ∈ old.approvers := old.index_subset (List.mem_of_find?_eq_some hfind)
      have hkey : o.key = n.key := by simpa using List.find?_some hfind
      exact holds_of_mem_ofApprover ho (new.index_subset hn) hkey hc
    · next hnone =>
      obtain rfl := List.mem_singleton.mp hc
      refine ⟨⟨n, new.index_subset hn, rfl⟩, .inl fun o ho hkey => ?_⟩
      obtain ⟨o', ho', hkey'⟩ := Spec.mem_keys_index_iff.mpr ⟨o, ho, hkey⟩
      exact List.find?_eq_none.mp hnone o' ho' (by simpa using hkey')

end Change

namespace Spec
variable {old new : Spec} {key : Approver.Key}

theorem approverRemoved_of_duplicate (h : (old.approvers.map Approver.key).Duplicate key) :
    .approverRemoved key ∈ old.changesTo new := by
  obtain ⟨o, ho, rfl⟩ := Change.duplicate_iff_mem_repeats.mp h
  have hmem := List.mem_map_of_mem (f := fun a => Change.approverRemoved a.key) ho
  simp only [changesTo, List.mem_append]
  exact .inl (.inl (.inl (.inr hmem)))

theorem approverAdded_of_duplicate (h : (new.approvers.map Approver.key).Duplicate key) :
    .approverAdded key ∈ old.changesTo new := by
  obtain ⟨n, hn, rfl⟩ := Change.duplicate_iff_mem_repeats.mp h
  have hmem := List.mem_map_of_mem (f := fun a => Change.approverAdded a.key) hn
  simp only [changesTo, List.mem_append]
  exact .inl (.inl (.inr hmem))

/-- In unchanged specifications nobody repeats a member. -/
theorem Unchanged.members_distinct (h : old.Unchanged new) {a : Approver}
    (ha : a ∈ old.approvers ∨ a ∈ new.approvers) : (a.members.map (·.name)).Nodup := by
  rcases ha with ha | ha
  · obtain ⟨n, hn, hkey⟩ := h.new_of_old ha
    exact (h.approvers a ha n hn hkey).old_distinct
  · obtain ⟨o, ho, hkey⟩ := h.old_of_new ha
    exact (h.approvers o ho a ha hkey).new_distinct

/-- Nothing is reported exactly if nothing differs; a repeated approver is always reported by its
key, a repeated member never goes unnoticed; and whatever is reported is so. -/
theorem changes_are_differences (old new : Spec) :
    (old.changesTo new = [] ↔ old.Unchanged new) ∧
    (∀ key, (old.approvers.map Approver.key).Duplicate key →
      .approverRemoved key ∈ old.changesTo new) ∧
    (∀ key, (new.approvers.map Approver.key).Duplicate key →
      .approverAdded key ∈ old.changesTo new) ∧
    (∀ a, a ∈ old.approvers ∨ a ∈ new.approvers → ∀ name,
      (a.members.map (·.name)).Duplicate name → old.changesTo new ≠ []) ∧
    ∀ c ∈ old.changesTo new, c.Holds old new := by
  refine ⟨changesTo_eq_nil_iff, fun key => approverRemoved_of_duplicate,
    fun key => approverAdded_of_duplicate, ?_, fun c => Change.holds_of_mem_changesTo⟩
  intro a ha name htwice hnil
  exact htwice.not_nodup ((changesTo_eq_nil_iff.mp hnil).members_distinct ha)

def listedOnce : Spec where
  approvers := [.user "ann", { Approver.group "team" with members := [⟨"bob", .approve⟩] }]
  required := 1

/-- The same, with a second entry for ann and a second record for bob. -/
def listedTwice : Spec where
  approvers :=
    [.user "ann", { Approver.group "team" with members := [⟨"bob", .approve⟩, ⟨"bob", .reject⟩] },
      { Approver.user "ann" with vote := .reject }]
  required := 1

theorem second_entries_are_reported :
    (listedTwice.approvers.map Approver.key).Duplicate ⟨.user, "ann"⟩ ∧
      .approverAdded ⟨.user, "ann"⟩ ∈ listedOnce.changesTo listedTwice ∧
      .memberAdded "team" "bob" .reject ∈ listedOnce.changesTo listedTwice ∧
      (Change.memberAdded "team" "bob" .reject).Holds listedOnce listedTwice := by
  obtain ⟨-, -, hadded, -, hholds⟩ := changes_are_differences listedOnce listedTwice
  have htwice : (listedTwice.approvers.map Approver.key).Duplicate ⟨.user, "ann"⟩ := by decide
  have hchanges : listedOnce.changesTo listedTwice =
      [.approverAdded ⟨.user, "ann"⟩, .memberAdded "team" "bob" .reject] := by
    cbv
  have hmember : .memberAdded "team" "bob" .reject ∈ listedOnce.changesTo listedTwice := by
    simp [hchanges]
  exact ⟨htwice, hadded _ htwice, hmember, hholds _ hmember⟩

end Spec
end Quorum
