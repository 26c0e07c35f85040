import Quorum.Proofs.Change
import Quorum.Proofs.Reordering
import Quorum.WellFormed

/-!
# Changes do not show the order

Specifications that repeat neither approvers nor members are compared item by item in the order of
their keys, so the changes between them are one list in whatever order they are written
(`Spec.changesTo_congr`). A look-up in them finds the same approver, its members in another order
(`Spec.approver?_withApprovers`). A change is judged by the claim of a group only where the group is
listed (`Spec.exists_group_of_mem_changesTo`).
-/
namespace Quorum

theorem Approver.SameButOrder.wellFormed {a b : Approver} (h : a.SameButOrder b)
    (ha : a.WellFormed) : b.WellFormed := by
  obtain ⟨hms⟩ := h
  exact {
    named := ha.named
    known := ha.known
    group_of_members := fun hne => ha.group_of_members fun hnil =>
      hne (List.nil_perm.mp (hnil ▸ hms))
    members_named := fun m hm => ha.members_named m (hms.mem_iff.mpr hm)
    members_known := fun m hm => ha.members_known m (hms.mem_iff.mpr hm)
    members_distinct := (hms.map _).nodup_iff.mp ha.members_distinct }

theorem Approver.SameButOrder.key_eq {a b : Approver} (h : a.SameButOrder b) : a.key = b.key := by
  obtain ⟨-⟩ := h
  rfl

theorem Approver.Reordering.keys_perm {as bs : List Approver} (h : Reordering as bs) :
    (as.map key).Perm (bs.map key) :=
  MatchedBy.map_perm h fun _ _ _ _ hab => hab.key_eq

theorem Spec.WellFormed.withApprovers {s : Spec} {as : List Approver} (h : s.WellFormed)
    (has : Approver.Reordering s.approvers as) : (s.withApprovers as).WellFormed where
  required_pos := h.required_pos
  approvers_ne_nil hnil := h.approvers_ne_nil ((MatchedBy.eq_nil_iff has).mpr hnil)
  approvers_distinct := has.keys_perm.nodup_iff.mp h.approvers_distinct
  approvers_wellFormed b hb := by
    obtain ⟨a, ha, hab⟩ := MatchedBy.exists_left has hb
    exact hab.wellFormed (h.approvers_wellFormed a ha)

namespace Approver
variable {a b : Approver} {ms : List Member}

theorem memberIndex_withMembers (h : a.members.Perm ms)
    (hdistinct : (a.members.map (·.name)).Nodup) :
    (a.withMembers ms).memberIndex = a.memberIndex := by
  have hdistinct' : (ms.map (·.name)).Nodup := (h.map _).nodup_iff.mp hdistinct
  rw [memberIndex, memberIndex, withMembers,
    Change.firsts_eq_self (Change.repeats_nil_eq_nil_iff.mpr hdistinct),
    Change.firsts_eq_self (Change.repeats_nil_eq_nil_iff.mpr hdistinct')]
  refine (mergeSort_eq_of_perm (compareOn Member.name) h fun m hm n hn heq => ?_).symm
  exact List.inj_on_of_nodup_map hdistinct hm hn (Std.compare_eq_iff_eq.mp heq)

/-- The same approver, its members in the order of their names. -/
def inOrder (a : Approver) : Approver := a.withMembers a.memberIndex

@[simp] theorem key_inOrder (a : Approver) : a.inOrder.key = a.key := rfl

theorem SameButOrder.inOrder_eq (h : a.SameButOrder b)
    (hdistinct : (a.members.map (·.name)).Nodup) : b.inOrder = a.inOrder := by
  obtain ⟨hms⟩ := h
  unfold inOrder
  rw [memberIndex_withMembers hms hdistinct]
  rfl

end Approver

namespace Change

/-- Approvers are compared in the order of their members' names. -/
theorem ofApprover_inOrder {o n : Approver} (ho : (o.members.map (·.name)).Nodup)
    (hn : (n.members.map (·.name)).Nodup) :
    ofApprover o.inOrder n.inOrder = ofApprover o n := by
  have hrepeats (a : Approver) (ha : (a.members.map (·.name)).Nodup) :
      repeats Member.name [] a.members = [] ∧ repeats Member.name [] a.inOrder.members = [] := by
    have hperm := Approver.memberIndex_perm ha
    exact ⟨repeats_nil_eq_nil_iff.mpr ha,
      repeats_nil_eq_nil_iff.mpr ((hperm.map _).nodup_iff.mpr ha)⟩
  have hindex (a : Approver) (ha : (a.members.map (·.name)).Nodup) :
      a.inOrder.memberIndex = a.memberIndex :=
    Approver.memberIndex_withMembers (Approver.memberIndex_perm ha).symm ha
  have hmember (m : Member) (group : String) : ofMember o.inOrder m group = ofMember o m group := by
    rw [ofMember, ofMember, hindex o ho]
  simp only [ofApprover, hindex o ho, hindex n hn, hrepeats o ho, hrepeats n hn, hmember]
  rfl

/-- The changes of `n`, which is compared with the one of `olds` that has its key. -/
def ofNew (olds : List Approver) (n : Approver) : List Change :=
  match olds.find? (·.key = n.key) with
  | some o => ofApprover o n
  | none => [.approverAdded n.key]

/-- The changes between approvers of distinct keys, in the order they are listed in. -/
def between (olds news : List Approver) : List Change :=
  (olds.filter fun a => !news.any (·.key = a.key)).map (fun a => .approverRemoved a.key) ++
    news.flatMap (ofNew olds)

theorem ofNew_inOrder {olds : List Approver} {n : Approver}
    (holds : ∀ o ∈ olds, (o.members.map (·.name)).Nodup)
    (hn : (n.members.map (·.name)).Nodup) :
    ofNew (olds.map Approver.inOrder) n.inOrder = ofNew olds n := by
  have hfind : (olds.map Approver.inOrder).find? (·.key = n.inOrder.key) =
      (olds.find? (·.key = n.key)).map Approver.inOrder := List.find?_map ..
  rw [ofNew, ofNew, hfind]
  cases hold : olds.find? (·.key = n.key) with
  | none => rfl
  | some o => exact ofApprover_inOrder (holds o (List.mem_of_find?_eq_some hold)) hn

theorem between_inOrder {olds news : List Approver}
    (holds : ∀ o ∈ olds, (o.members.map (·.name)).Nodup)
    (hnews : ∀ n ∈ news, (n.members.map (·.name)).Nodup) :
    between (olds.map Approver.inOrder) (news.map Approver.inOrder) = between olds news := by
  have hnew : (news.map Approver.inOrder).flatMap (ofNew (olds.map Approver.inOrder)) =
      news.flatMap (ofNew olds) := by
    rw [List.flatMap_map]
    exact List.flatMap_congr fun n hn => ofNew_inOrder holds (hnews n hn)
  rw [between, hnew, List.filter_map, List.map_map]
  simp only [Function.comp_def, List.any_map, Approver.key_inOrder]
  rfl

end Change

namespace Spec
variable {s s' : Spec} {as bs : List Approver}

theorem WellFormed.index_eq (h : s.WellFormed) :
    s.index = s.approvers.mergeSort fun a b => (compareOn Approver.key a b).isLE := by
  rw [index, Change.firsts_eq_self (Change.repeats_nil_eq_nil_iff.mpr h.approvers_distinct)]
  rfl

/-- Approvers are indexed in one order, if their members are put in order, too. -/
theorem map_inOrder_index_congr (h : s.WellFormed) (has : Approver.Reordering s.approvers as) :
    (s.withApprovers as).index.map Approver.inOrder = s.index.map Approver.inOrder := by
  have hsorted {s : Spec} (h : s.WellFormed) : s.index.map Approver.inOrder =
      (s.approvers.map Approver.inOrder).mergeSort
        fun a b => (compareOn Approver.key a b).isLE := by
    rw [h.index_eq]
    exact List.map_mergeSort fun _ _ _ _ => rfl
  have hperm : (s.approvers.map Approver.inOrder).Perm (as.map Approver.inOrder) :=
    MatchedBy.map_perm has fun a ha _ _ hab => (hab.inOrder_eq (h.members_distinct ha)).symm
  rw [hsorted (h.withApprovers has), hsorted h]
  refine (mergeSort_eq_of_perm (compareOn Approver.key) hperm fun a ha b hb heq => ?_).symm
  obtain ⟨x, hx, rfl⟩ := List.mem_map.mp ha
  obtain ⟨y, hy, rfl⟩ := List.mem_map.mp hb
  rw [List.inj_on_of_nodup_map h.approvers_distinct hx hy (Approver.Key.eq_of_compare heq)]

open Change in
theorem changesTo_eq_between (h : s.WellFormed) (h' : s'.WellFormed) :
    s.changesTo s' = whenChanged s.required s'.required .required ++
      whenChanged s.description s'.description .description ++
      between (s.index.map Approver.inOrder) (s'.index.map Approver.inOrder) := by
  have hmembers {s : Spec} (h : s.WellFormed) : ∀ a ∈ s.index, (a.members.map (·.name)).Nodup :=
    fun a ha => h.members_distinct ((index_perm h.approvers_distinct).mem_iff.mp ha)
  rw [between_inOrder (hmembers h) (hmembers h'), changesTo,
    repeats_nil_eq_nil_iff.mpr h.approvers_distinct,
    repeats_nil_eq_nil_iff.mpr h'.approvers_distinct]
  simp only [List.map_nil, List.append_nil, List.append_assoc, between]
  rfl

/-- The changes between valid specifications are one list, in whatever order they are written. -/
theorem changesTo_congr (h : s.WellFormed) (h' : s'.WellFormed)
    (has : Approver.Reordering s.approvers as) (hbs : Approver.Reordering s'.approvers bs) :
    (s.withApprovers as).changesTo (s'.withApprovers bs) = s.changesTo s' := by
  rw [changesTo_eq_between h h', changesTo_eq_between (h.withApprovers has) (h'.withApprovers hbs),
    map_inOrder_index_congr h has, map_inOrder_index_congr h' hbs]
  rfl

end Spec

namespace Change

/-- The group whose claim a change is judged by. -/
def group? : Change → Option String
  | .vote ⟨.group, name⟩ _ | .message ⟨.group, name⟩ | .memberAdded name _ _ => some name
  | _ => none

theorem group?_of_mem_ofApprover {o n : Approver} (hn : n.WellFormed) {c : Change}
    (hc : c ∈ ofApprover o n) {group : String} (hgroup : c.group? = some group) :
    n.kind = .group ∧ n.name = group := by
  have hmember {m : Member} (hm : m ∈ n.memberIndex) : n.kind = .group :=
    hn.group_of_members
      (List.ne_nil_of_mem ((Approver.memberIndex_perm hn.members_distinct).mem_iff.mp hm))
  rw [ofApprover, repeats_nil_eq_nil_iff.mpr hn.members_distinct] at hc
  simp only [List.map_nil, List.append_nil, List.mem_append, mem_whenChanged_iff, List.mem_map,
    List.mem_flatMap] at hc
  rcases hc with (((⟨-, rfl⟩ | ⟨-, rfl⟩) | ⟨m, -, rfl⟩) | ⟨m, -, rfl⟩) | ⟨m, hm, hc⟩
  · cases hkind : n.kind <;> simp_all [Approver.key, group?]
  · cases hkind : n.kind <;> simp_all [Approver.key, group?]
  · cases hgroup
  · cases hgroup
  · rw [ofMember] at hc
    split at hc
    · obtain ⟨-, rfl⟩ := mem_whenChanged_iff.mp hc
      cases hgroup
    · obtain rfl := List.mem_singleton.mp hc
      exact ⟨hmember hm, Option.some.inj hgroup⟩

end Change

namespace Spec
variable {s s' : Spec} {as bs : List Approver}

/-- A group is asked about only where it is listed. -/
theorem exists_group_of_mem_changesTo (h : s.WellFormed) (h' : s'.WellFormed) {c : Change}
    (hc : c ∈ s.changesTo s') {group : String} (hgroup : c.group? = some group) :
    ∃ a ∈ s.approvers, a.kind = .group ∧ a.name = group := by
  rw [changesTo, Change.repeats_nil_eq_nil_iff.mpr h.approvers_distinct,
    Change.repeats_nil_eq_nil_iff.mpr h'.approvers_distinct] at hc
  simp only [List.map_nil, List.append_nil, List.mem_append, Change.mem_whenChanged_iff,
    List.mem_map, List.mem_flatMap] at hc
  rcases hc with ((⟨-, rfl⟩ | ⟨-, rfl⟩) | ⟨a, -, rfl⟩) | ⟨n, hn, hc⟩
  · cases hgroup
  · cases hgroup
  · cases hgroup
  · split at hc
    · next o hfind =>
      have ho : o ∈ s.approvers :=
        (index_perm h.approvers_distinct).mem_iff.mp (List.mem_of_find?_eq_some hfind)
      have hkey : o.key = n.key := by simpa using List.find?_some hfind
      have hn : n ∈ s'.approvers := (index_perm h'.approvers_distinct).mem_iff.mp hn
      obtain ⟨hkind, hname⟩ :=
        Change.group?_of_mem_ofApprover (h'.approvers_wellFormed n hn) hc hgroup
      exact ⟨o, ho, (congrArg Approver.Key.kind hkey).trans hkind,
        (congrArg Approver.Key.name hkey).trans hname⟩
    · obtain rfl := List.mem_singleton.mp hc
      cases hgroup

/-- A look-up finds the same approver, its members in another order. -/
theorem approver?_withApprovers (h : s.WellFormed) (has : Approver.Reordering s.approvers as)
    (kind : Approver.Kind) (name : String) :
    (s.approver? kind name = none ∧ (s.withApprovers as).approver? kind name = none) ∨
      ∃ a ∈ s.approvers, ∃ ms, a.members.Perm ms ∧ s.approver? kind name = some a ∧
        (s.withApprovers as).approver? kind name = some (a.withMembers ms) := by
  have hdistinct := h.approvers_distinct
  have hdistinct' := (h.withApprovers has).approvers_distinct
  cases hfind : s.approver? kind name with
  | some a =>
    obtain ⟨ha, hkey⟩ := (approver?_eq_some_iff hdistinct).mp hfind
    obtain ⟨b, hb, hab⟩ := has.exists_right ha
    obtain @⟨ms, hms⟩ := hab
    exact .inr ⟨a, ha, ms, hms, rfl, (approver?_eq_some_iff hdistinct').mpr ⟨hb, hkey⟩⟩
  | none =>
    refine .inl ⟨rfl, Option.eq_none_iff_forall_not_mem.mpr fun b hfind' => ?_⟩
    obtain ⟨hb, hkey⟩ := (approver?_eq_some_iff hdistinct').mp hfind'
    obtain ⟨a, ha, hab⟩ := MatchedBy.exists_left has hb
    rw [(approver?_eq_some_iff hdistinct).mpr ⟨ha, hab.key_eq.trans hkey⟩] at hfind
    cases hfind

end Spec

theorem Approver.member?_withMembers {a : Approver} {ms : List Member} (h : a.members.Perm ms)
    (hdistinct : (a.members.map (·.name)).Nodup) (name : String) :
    (a.withMembers ms).member? name = a.member? name := by
  have hdistinct' : ((a.withMembers ms).members.map (·.name)).Nodup :=
    (h.map _).nodup_iff.mp hdistinct
  refine Option.ext fun m => ?_
  rw [member?_eq_some_iff hdistinct', member?_eq_some_iff hdistinct]
  exact and_congr_left' h.mem_iff.symm

end Quorum
