import Quorum.Params
import Quorum.Proofs.Review

/-!
# Approvers by name

A name stands for one approver, a group behind the mark and else a user, and no two names stand for
the same (`Approver.key_named_injective`). So a list of approvers that was parsed is a list of
accepted names without their repetitions (`TaskParams.approversOf_eq_ok_iff`), and where a run gives
several lists, what holds of each holds of the one that counts (`TaskParams.of_ofParams`).
-/
namespace Quorum

/-- The approver that a name stands for: a group behind the mark, and without it a user of that
very name. -/
def Approver.named (raw : String) : Approver :=
  match TaskParams.after? Spec.groupMark.toList raw.toList with
  | some cs => .group (String.ofList cs)
  | none => .user raw

namespace TaskParams
variable {pre cs rest : List Char}

theorem after?_eq_some_iff : after? pre cs = some rest ↔ cs = pre ++ rest := by
  unfold after?
  constructor
  · intro h
    obtain ⟨hstarts, hrest⟩ := Option.ite_none_right_eq_some.mp h
    obtain ⟨t, rfl⟩ := List.isPrefixOf_iff_prefix.mp hstarts
    rw [List.drop_left] at hrest
    rw [Option.some.inj hrest]
  · rintro rfl
    rw [if_pos (List.isPrefixOf_iff_prefix.mpr (List.prefix_append pre rest)), List.drop_left]

theorem after?_eq_none_iff : after? pre cs = none ↔ ¬ pre <+: cs := by
  rw [after?, ← List.isPrefixOf_iff_prefix, ite_eq_right_iff]
  simp

end TaskParams

namespace Approver
open TaskParams

theorem named_mark (group : String) : named (Spec.groupMark ++ group) = .group group := by
  have hafter : after? Spec.groupMark.toList (Spec.groupMark ++ group).toList =
      some group.toList := after?_eq_some_iff.mpr String.toList_append
  simp only [named, hafter, String.ofList_toList]

theorem named_of_unmarked {raw : String} (h : ¬ Spec.groupMark.toList <+: raw.toList) :
    named raw = .user raw := by
  rw [named, after?_eq_none_iff.mpr h]

theorem named_cases (raw : String) :
    (∃ group, raw = Spec.groupMark ++ group ∧ named raw = .group group) ∨
      ¬ Spec.groupMark.toList <+: raw.toList ∧ named raw = .user raw := by
  by_cases h : Spec.groupMark.toList <+: raw.toList
  · obtain ⟨cs, hcs⟩ := h
    have hraw : raw = Spec.groupMark ++ String.ofList cs := by
      rw [← String.toList_inj, String.toList_append, String.toList_ofList, hcs]
    exact .inl ⟨String.ofList cs, hraw, hraw ▸ named_mark _⟩
  · exact .inr ⟨h, named_of_unmarked h⟩

theorem key_named_injective : Function.Injective fun raw => (named raw).key := by
  intro raw raw' h
  rcases named_cases raw with ⟨g, rfl, hg⟩ | ⟨-, hu⟩ <;>
    rcases named_cases raw' with ⟨g', rfl, hg'⟩ | ⟨-, hu'⟩
  · simp only [hg, hg', key, group, Key.mk.injEq, true_and] at h
    rw [h]
  · simp [hg, hu', key, group, user] at h
  · simp [hu, hg', key, group, user] at h
  · simpa [hu, hu', key, user] using h

/-- Nobody has voted yet, and there is nothing else to say. -/
theorem named_fresh (raw : String) :
    (named raw).vote = .pending ∧ (named raw).message = none ∧ (named raw).members = [] := by
  rcases named_cases raw with ⟨g, -, h⟩ | ⟨-, h⟩ <;> rw [h] <;> exact ⟨rfl, rfl, rfl⟩

end Approver

namespace TaskParams

variable {raw : String} {a : Approver}

/-- A name that is accepted. A blank that is no space may stand anywhere in it. -/
structure Accepted (raw : String) : Prop where
  not_blank : Text.blank raw = false
  no_space_at_colon : hasBlankAtColon raw.toList = false
  group : ∀ group, raw = Spec.groupMark ++ group →
    Text.blank group = false ∧ ':' ∉ group.toList ∧ ' ' ∉ group.toList

theorem ite_error_eq_ok_iff {c : Bool} {e : ε} {x : Except ε α} {a : α} :
    (if c then .error e else x) = .ok a ↔ c = false ∧ x = .ok a := by
  cases c <;> simp

theorem approverOfName_unmarked_eq_ok_iff (h : ¬ Spec.groupMark.toList <+: raw.toList) :
    approverOfName raw = .ok a ↔
      Text.blank raw = false ∧ hasBlankAtColon raw.toList = false ∧ .user raw = a := by
  simp only [approverOfName, after?_eq_none_iff.mpr h, ite_error_eq_ok_iff, Except.ok.injEq]

theorem approverOfName_mark_eq_ok_iff {group : String} :
    approverOfName (Spec.groupMark ++ group) = .ok a ↔
      Text.blank (Spec.groupMark ++ group) = false ∧
      hasBlankAtColon (Spec.groupMark ++ group).toList = false ∧
      Text.blank group = false ∧ ':' ∉ group.toList ∧ ' ' ∉ group.toList ∧ .group group = a := by
  have hafter : after? Spec.groupMark.toList (Spec.groupMark ++ group).toList =
      some group.toList := after?_eq_some_iff.mpr String.toList_append
  simp only [approverOfName, hafter, String.ofList_toList, ite_error_eq_ok_iff, Except.ok.injEq,
    List.contains_eq_mem, decide_eq_false_iff_not]

theorem approverOfName_eq_ok_iff : approverOfName raw = .ok a ↔ Accepted raw ∧ a = .named raw := by
  rcases Approver.named_cases raw with ⟨g, rfl, hnamed⟩ | ⟨hunmarked, hnamed⟩
  · rw [approverOfName_mark_eq_ok_iff, hnamed]
    constructor
    · rintro ⟨hblank, hcolon, hblank', hcolons, hspaces, rfl⟩
      refine ⟨⟨hblank, hcolon, fun g' hg' => ?_⟩, rfl⟩
      obtain rfl := (String.append_right_inj Spec.groupMark).mp hg'
      exact ⟨hblank', hcolons, hspaces⟩
    · rintro ⟨h, rfl⟩
      obtain ⟨hblank, hcolons, hspaces⟩ := h.group g rfl
      exact ⟨h.not_blank, h.no_space_at_colon, hblank, hcolons, hspaces, rfl⟩
  · rw [approverOfName_unmarked_eq_ok_iff hunmarked, hnamed]
    constructor
    · rintro ⟨hblank, hcolon, rfl⟩
      refine ⟨⟨hblank, hcolon, fun g hg => ?_⟩, rfl⟩
      rw [hg, String.toList_append] at hunmarked
      exact absurd (List.prefix_append _ _) hunmarked
    · rintro ⟨h, rfl⟩
      exact ⟨h.not_blank, h.no_space_at_colon, rfl⟩

theorem approverOfJson_eq_ok_iff {item : Json} :
    approverOfJson item = .ok a ↔ ∃ raw, item = .string raw ∧ Accepted raw ∧ a = .named raw := by
  constructor
  · intro h
    cases item with
    | string raw => exact ⟨raw, rfl, approverOfName_eq_ok_iff.mp h⟩
    | object members =>
      simp only [approverOfJson] at h
      split at h <;> cases h
    | _ => cases h
  · rintro ⟨raw, rfl, h⟩
    exact approverOfName_eq_ok_iff.mpr h

/-- Whatever its index, an item that is no accepted name stops the list. -/
theorem approversOfItems_eq_ok_iff {i : Nat} {items : List Json} {as : List Approver} :
    approversOfItems i items = .ok as ↔
      ∃ names : List String, items = names.map .string ∧ (∀ raw ∈ names, Accepted raw) ∧
        as = names.map .named := by
  induction items generalizing i as with
  | nil =>
    constructor
    · rintro ⟨⟩
      exact ⟨[], rfl, by simp, rfl⟩
    · rintro ⟨names, hnames, -, rfl⟩
      rw [List.map_eq_nil_iff.mp hnames.symm]
      rfl
  | cons item items ih =>
    simp only [approversOfItems, bind_eq_ok_iff, mapError_eq_ok_iff, approverOfJson_eq_ok_iff, ih]
    constructor
    · rintro ⟨a, ⟨raw, rfl, hraw, rfl⟩, as, ⟨names, rfl, hnames, rfl⟩, ⟨⟩⟩
      exact ⟨raw :: names, rfl, List.forall_mem_cons.mpr ⟨hraw, hnames⟩, rfl⟩
    · rintro ⟨names, hitems, haccepted, rfl⟩
      obtain ⟨raw, names, rfl, rfl, rfl⟩ := List.map_eq_cons_iff.mp hitems.symm
      obtain ⟨hraw, hnames⟩ := List.forall_mem_cons.mp haccepted
      exact ⟨_, ⟨raw, rfl, hraw, rfl⟩, _, ⟨names, rfl, hnames, rfl⟩, rfl⟩

theorem key_not_mem_of_mem_dropRepeated {seen : List Approver.Key} {as : List Approver}
    (h : a ∈ dropRepeated seen as) : a.key ∉ seen := by
  induction as generalizing seen with
  | nil => cases h
  | cons b as ih =>
    rw [dropRepeated] at h
    split at h
    · exact ih h
    · next hb =>
      rcases List.mem_cons.mp h with rfl | h
      · exact hb
      · exact fun hseen => ih h (List.mem_cons_of_mem _ hseen)

theorem dropRepeated_distinct (seen : List Approver.Key) (as : List Approver) :
    ((dropRepeated seen as).map Approver.key).Nodup := by
  induction as generalizing seen with
  | nil => exact .nil
  | cons a as ih =>
    rw [dropRepeated]
    split
    · exact ih seen
    · refine List.nodup_cons.mpr ⟨fun hmem => ?_, ih _⟩
      obtain ⟨b, hb, hkey⟩ := List.mem_map.mp hmem
      exact key_not_mem_of_mem_dropRepeated hb (hkey ▸ List.mem_cons_self)

theorem approversOf_distinct {value : ParamValue} {as : List Approver}
    (h : approversOf value = .ok as) : (as.map Approver.key).Nodup := by
  rw [approversOf, bind_eq_ok_iff] at h
  obtain ⟨items, -, h⟩ := h
  obtain ⟨as', -, ⟨⟩⟩ := bind_eq_ok_iff.mp h
  exact dropRepeated_distinct [] as'

/-- As no two names stand for one approver, it is the names that are told apart. -/
theorem dropRepeated_map_named (seen names : List String) :
    dropRepeated (seen.map fun raw => (Approver.named raw).key) (names.map .named) =
      (names.filter (· ∉ seen)).eraseDups.map .named := by
  -- Each approver that stays is among those seen by the ones behind it.
  induction names generalizing seen with
  | nil => rfl
  | cons raw names ih =>
    have hmem : (Approver.named raw).key ∈ seen.map (fun raw => (Approver.named raw).key) ↔
        raw ∈ seen := List.mem_map_of_injective Approver.key_named_injective
    simp only [List.map_cons, dropRepeated, hmem]
    by_cases hseen : raw ∈ seen
    · rw [if_pos hseen, ih, List.filter_cons_of_neg (by simpa using hseen)]
    · have hrest : (names.filter (· ∉ seen)).filter (fun raw' => !raw' == raw) =
          names.filter (· ∉ raw :: seen) := by
        rw [List.filter_filter]
        refine List.filter_congr fun raw' _ => ?_
        simp [not_or, beq_eq_decide]
      rw [if_neg hseen, List.filter_cons_of_pos (by simpa using hseen), List.eraseDups_cons, hrest,
        List.map_cons, ← ih (raw :: seen), List.map_cons]

/-- The names of a list, each of them accepted, stand for its approvers, in the order in which they
come first. -/
theorem approversOf_eq_ok_iff {value : ParamValue} {as : List Approver} :
    approversOf value = .ok as ↔
      ∃ names : List String, approverItems value = .ok (names.map .string) ∧
        (∀ raw ∈ names, Accepted raw) ∧ as = names.eraseDups.map .named := by
  have hdrop (names : List String) :
      dropRepeated [] (names.map .named) = names.eraseDups.map .named := by
    have h := dropRepeated_map_named [] names
    rwa [List.filter_eq_self.mpr (by simp)] at h
  simp only [approversOf, bind_eq_ok_iff, approversOfItems_eq_ok_iff]
  constructor
  · rintro ⟨items, hitems, as, ⟨names, rfl, haccepted, rfl⟩, ⟨⟩⟩
    exact ⟨names, hitems, haccepted, hdrop names⟩
  · rintro ⟨names, hitems, haccepted, rfl⟩
    exact ⟨_, hitems, _, ⟨names, rfl, haccepted, rfl⟩, congrArg Except.ok (hdrop names)⟩

/-- What each step of a run keeps, the run keeps. -/
theorem foldlM_preserves {f : σ → α → Except ε σ} {P : σ → Prop} {as : List α} {s s' : σ}
    (hstep : ∀ a ∈ as, ∀ s s', f s a = .ok s' → P s → P s') (h : as.foldlM f s = .ok s')
    (hs : P s) : P s' := by
  induction as generalizing s with
  | nil =>
    cases h
    exact hs
  | cons a as ih =>
    rw [List.foldlM_cons, bind_eq_ok_iff] at h
    obtain ⟨next, hnext, hrest⟩ := h
    obtain ⟨hfirst, hothers⟩ := List.forall_mem_cons.mp hstep
    exact ih hothers hrest (hfirst s next hnext hs)

variable {params : List Param} {p p' : TaskParams} {q : Param}

theorem int64_of_requiredOf {value : ParamValue} {n : Int} (h : requiredOf value = .ok n) :
    0 < n ∧ Bounds.inInt64 n = true := by
  cases value with
  | list names => cases h
  | text raw =>
    simp only [requiredOf] at h
    split at h
    · cases h
    · next m hm =>
      split at h
      · cases h
      · next hpos =>
        cases h
        exact ⟨Int.not_le.mp hpos, (Option.filter_eq_some_iff.mp hm).2⟩

/-- One parameter sets one thing, or nothing. -/
theorem take_cases (h : take p q = .ok p') :
    (q.name = "approvers" ∧ ∃ as, approversOf q.value = .ok as ∧
      p' = { p with approvers := as }) ∨
    (q.name = "numberOfApprovalsRequired" ∧ ∃ n, requiredOf q.value = .ok n ∧
      p' = { p with required := n }) ∨
    (q.name ≠ "approvers" ∧ ∃ description, p' = { p with description }) := by
  simp only [take] at h
  split at h
  · next hname =>
    obtain ⟨as, has, ⟨⟩⟩ := bind_eq_ok_iff.mp h
    exact .inl ⟨hname, as, has, rfl⟩
  next hname =>
  split at h
  · next hrequired =>
    obtain ⟨n, hn, ⟨⟩⟩ := bind_eq_ok_iff.mp h
    exact .inr (.inl ⟨hrequired, n, hn, rfl⟩)
  refine .inr (.inr ⟨hname, ?_⟩)
  split at h
  · split at h
    · cases h
    · cases h
      split
      · exact ⟨_, rfl⟩
      · exact ⟨_, rfl⟩
  · cases h
    exact ⟨_, rfl⟩

theorem ofParams_eq_ok_iff :
    ofParams params = .ok p ↔
      params.foldlM take { approvers := [] } = .ok p ∧ p.approvers ≠ [] := by
  rw [ofParams, bind_eq_ok_iff]
  constructor
  · rintro ⟨p', hfold, h⟩
    split at h
    · cases h
    · next hne =>
      cases h
      exact ⟨hfold, fun hnil => hne (List.isEmpty_iff.mpr hnil)⟩
  · rintro ⟨hfold, hne⟩
    exact ⟨p, hfold, if_neg fun hnil => hne (List.isEmpty_iff.mp hnil)⟩

/-- The approvers come from one of the parameters, and the requirement is a positive number of 64
bits. -/
theorem of_ofParams (h : ofParams params = .ok p) :
    (∃ q ∈ params, approversOf q.value = .ok p.approvers) ∧ 0 < p.required ∧
      Bounds.inInt64 p.required = true := by
  obtain ⟨hfold, hne⟩ := ofParams_eq_ok_iff.mp h
  have hrequired : 0 < p.required ∧ Bounds.inInt64 p.required = true := by
    refine foldlM_preserves (P := fun p => 0 < p.required ∧ Bounds.inInt64 p.required = true)
      (fun q _ p p' hstep hp => ?_) hfold (by decide)
    rcases take_cases hstep with ⟨-, as, -, rfl⟩ | ⟨-, n, hn, rfl⟩ | ⟨-, d, rfl⟩
    · exact hp
    · exact int64_of_requiredOf hn
    · exact hp
  -- Before its first list a run has no approvers, and one that ends well has some.
  have happrovers : p.approvers = [] ∨ ∃ q ∈ params, approversOf q.value = .ok p.approvers := by
    refine foldlM_preserves
      (P := fun p => p.approvers = [] ∨ ∃ q ∈ params, approversOf q.value = .ok p.approvers)
      (fun q hq p p' hstep hp => ?_) hfold (.inl rfl)
    rcases take_cases hstep with ⟨-, as, has, rfl⟩ | ⟨-, n, -, rfl⟩ | ⟨-, d, rfl⟩
    · exact .inr ⟨q, hq, has⟩
    · exact hp
    · exact hp
  exact ⟨happrovers.resolve_left hne, hrequired⟩

end TaskParams
end Quorum
