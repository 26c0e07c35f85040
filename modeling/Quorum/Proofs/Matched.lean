import Mathlib.Data.List.Perm.Basic

/-!
# Lists in another order

Two lists say the same if their items can be matched one to one, each with one that says the same
(`MatchedBy`). What is computed from such lists agrees if it does not depend on order
(`MatchedBy.exists_iff`), or if it is sorted by a key that no two items share
(`mergeSort_eq_of_perm`). Items that do share a key keep the order they came in, and so show it
(`eq_of_mergeSort_eq`).
-/
namespace Quorum

/-- The lists can be matched one to one, so that items that are matched are related. -/
def MatchedBy (R : α → β → Prop) (as : List α) (bs : List β) : Prop :=
  ∃ cs, as.Perm cs ∧ List.Forall₂ R cs bs

namespace MatchedBy
variable {R : α → β → Prop} {as : List α} {bs : List β}

theorem of_perm {R : α → α → Prop} {as bs : List α} (h : as.Perm bs) (hrefl : ∀ a, R a a) :
    MatchedBy R as bs :=
  ⟨bs, h, List.forall₂_same.mpr fun a _ => hrefl a⟩

theorem mono {S : α → β → Prop} (h : MatchedBy R as bs)
    (hRS : ∀ a ∈ as, ∀ b ∈ bs, R a b → S a b) : MatchedBy S as bs := by
  obtain ⟨cs, hperm, hrelated⟩ := h
  refine ⟨cs, hperm, ?_⟩
  rw [List.forall₂_iff_zip] at hrelated ⊢
  refine ⟨hrelated.1, fun {a b} hab => ?_⟩
  obtain ⟨ha, hb⟩ := List.of_mem_zip hab
  exact hRS a (hperm.mem_iff.mpr ha) b hb (hrelated.2 hab)

theorem perm (h : MatchedBy R as bs) {as' : List α} {bs' : List β} (has : as'.Perm as)
    (hbs : bs.Perm bs') : MatchedBy R as' bs' := by
  obtain ⟨cs, hperm, hrelated⟩ := h
  have hcomp : Relation.Comp (List.Forall₂ R) List.Perm cs bs' := ⟨bs, hrelated, hbs⟩
  rw [List.forall₂_comp_perm_eq_perm_comp_forall₂] at hcomp
  obtain ⟨cs', hcs, hrelated⟩ := hcomp
  exact ⟨cs', (has.trans hperm).trans hcs, hrelated⟩

theorem flip (h : MatchedBy R as bs) : MatchedBy (flip R) bs as := by
  obtain ⟨cs, hperm, hrelated⟩ := h
  exact perm ⟨bs, .refl _, hrelated.flip⟩ (.refl _) hperm.symm

theorem exists_right (h : MatchedBy R as bs) {a : α} (ha : a ∈ as) : ∃ b ∈ bs, R a b := by
  obtain ⟨cs, hperm, hrelated⟩ := h
  have ha : a ∈ cs := hperm.mem_iff.mp ha
  clear hperm
  induction hrelated with
  | nil => cases ha
  | @cons c b cs bs hcb _ ih =>
    rcases List.mem_cons.mp ha with rfl | ha
    · exact ⟨b, List.mem_cons_self, hcb⟩
    · obtain ⟨b', hb', hab⟩ := ih ha
      exact ⟨b', List.mem_cons_of_mem _ hb', hab⟩

theorem exists_left (h : MatchedBy R as bs) {b : β} (hb : b ∈ bs) : ∃ a ∈ as, R a b :=
  h.flip.exists_right hb

theorem map {S : γ → δ → Prop} {f : α → γ} {g : β → δ} (h : MatchedBy R as bs)
    (hfg : ∀ a b, R a b → S (f a) (g b)) : MatchedBy S (as.map f) (bs.map g) := by
  obtain ⟨cs, hperm, hrelated⟩ := h
  refine ⟨cs.map f, hperm.map f, ?_⟩
  rw [List.forall₂_map_left_iff, List.forall₂_map_right_iff]
  exact hrelated.imp hfg

theorem filter {p : α → Bool} {q : β → Bool} (h : MatchedBy R as bs)
    (hpq : ∀ a b, R a b → p a = q b) : MatchedBy R (as.filter p) (bs.filter q) := by
  obtain ⟨cs, hperm, hrelated⟩ := h
  refine ⟨cs.filter p, hperm.filter p, List.rel_filter (fun a b hab => ?_) hrelated⟩
  simp only [hpq a b hab]

/-- What says the same of items that are matched says the same of the lists, but for the order. -/
theorem map_perm {f : α → γ} {g : β → γ} (h : MatchedBy R as bs)
    (hfg : ∀ a ∈ as, ∀ b ∈ bs, R a b → f a = g b) : (as.map f).Perm (bs.map g) := by
  obtain ⟨cs, hperm, hrelated⟩ := h.mono hfg
  have heq : List.Forall₂ (· = ·) (cs.map f) (bs.map g) := by
    rwa [List.forall₂_map_left_iff, List.forall₂_map_right_iff]
  rw [List.forall₂_eq_eq_eq] at heq
  exact (hperm.map f).trans (.of_eq heq)

/-- Lists of which something says the same, but for the order, can be matched by it. -/
theorem of_map_perm {f : α → γ} {g : β → γ} (h : (as.map f).Perm (bs.map g)) :
    MatchedBy (fun a b => f a = g b) as bs := by
  have hcomp : Relation.Comp (List.Forall₂ fun a c => f a = c) List.Perm as (bs.map g) :=
    ⟨as.map f, by simp [List.forall₂_map_right_iff], h⟩
  rw [List.forall₂_comp_perm_eq_perm_comp_forall₂] at hcomp
  obtain ⟨cs, hperm, hrelated⟩ := hcomp
  exact ⟨cs, hperm, List.forall₂_map_right_iff.mp hrelated⟩

theorem exists_iff {P : α → Prop} {Q : β → Prop} (h : MatchedBy R as bs)
    (hPQ : ∀ a ∈ as, ∀ b ∈ bs, R a b → (P a ↔ Q b)) : (∃ a ∈ as, P a) ↔ ∃ b ∈ bs, Q b := by
  constructor
  · intro hP
    obtain ⟨a, ha, hP⟩ := hP
    obtain ⟨b, hb, hab⟩ := h.exists_right ha
    exact ⟨b, hb, (hPQ a ha b hb hab).mp hP⟩
  · intro hQ
    obtain ⟨b, hb, hQ⟩ := hQ
    obtain ⟨a, ha, hab⟩ := h.exists_left hb
    exact ⟨a, ha, (hPQ a ha b hb hab).mpr hQ⟩

theorem eq_nil_iff (h : MatchedBy R as bs) : as = [] ↔ bs = [] := by
  obtain ⟨cs, hperm, hrelated⟩ := h
  rw [← List.length_eq_zero_iff, ← List.length_eq_zero_iff, hperm.length_eq, hrelated.length_eq]

end MatchedBy

/-- Two items of a list can be moved to its front in either order. -/
theorem exists_perm_cons_cons [DecidableEq α] {as : List α} {a b : α} (ha : a ∈ as) (hb : b ∈ as)
    (hne : a ≠ b) : ∃ rest, as.Perm (a :: b :: rest) ∧ as.Perm (b :: a :: rest) := by
  have hrest : (as.erase a).Perm (b :: (as.erase a).erase b) :=
    List.perm_cons_erase ((List.mem_erase_of_ne hne.symm).mpr hb)
  have hperm : as.Perm (a :: b :: (as.erase a).erase b) :=
    (List.perm_cons_erase ha).trans (hrest.cons a)
  exact ⟨_, hperm, hperm.trans (.swap b a _)⟩

section
variable (cmp : α → α → Ordering) [Std.TransCmp cmp] {as bs : List α}

theorem isLE_or_isLE (a b : α) : ((cmp a b).isLE || (cmp b a).isLE) = true := by
  have hswap : cmp a b = (cmp b a).swap := Std.OrientedCmp.eq_swap
  rw [hswap]
  cases cmp b a <;> rfl

theorem pairwise_mergeSort_isLE (as : List α) :
    (as.mergeSort fun a b => (cmp a b).isLE).Pairwise fun a b => (cmp a b).isLE = true :=
  List.pairwise_mergeSort (fun _ _ _ => Std.TransCmp.isLE_trans) (isLE_or_isLE cmp) as

/-- What holds between any two items, in either order, still does when they are sorted. -/
theorem pairwise_mergeSort_and {S : α → α → Prop} (hsymm : ∀ a b, S a b → S b a)
    (h : as.Pairwise S) :
    (as.mergeSort fun a b => (cmp a b).isLE).Pairwise fun a b => (cmp a b).isLE = true ∧ S a b :=
  (pairwise_mergeSort_isLE cmp as).and
    ((List.mergeSort_perm as _).symm.pairwise h fun {a b} => hsymm a b)

/-- A list has one sorted order, if no two of its items tie. -/
theorem mergeSort_eq_of_perm (h : as.Perm bs)
    (hdistinct : ∀ a ∈ as, ∀ b ∈ as, cmp a b = .eq → a = b) :
    as.mergeSort (fun a b => (cmp a b).isLE) = bs.mergeSort fun a b => (cmp a b).isLE := by
  refine List.Perm.eq_of_pairwise (fun a b ha hb hab hba => ?_)
    (pairwise_mergeSort_isLE cmp as) (pairwise_mergeSort_isLE cmp bs)
    (((List.mergeSort_perm as _).trans h).trans (List.mergeSort_perm bs _).symm)
  have hb : b ∈ as := h.mem_iff.mpr (List.mem_mergeSort.mp hb)
  exact hdistinct a (List.mem_mergeSort.mp ha) b hb (Std.OrientedCmp.isLE_antisymm hab hba)

/-- Items that tie with one another keep the order they came in. -/
theorem filter_mergeSort {p : α → Bool}
    (hties : ∀ a b, p a = true → p b = true → cmp a b = .eq) :
    (as.mergeSort fun a b => (cmp a b).isLE).filter p = as.filter p := by
  have hsorted : (as.filter p).Pairwise fun a b => (cmp a b).isLE = true := by
    refine List.pairwise_of_forall_mem_list fun a ha b hb => ?_
    rw [hties a b (List.mem_filter.mp ha).2 (List.mem_filter.mp hb).2]
    rfl
  have hsub : ((as.filter p).filter p).Sublist
      ((as.mergeSort fun a b => (cmp a b).isLE).filter p) :=
    (List.sublist_mergeSort (fun _ _ _ => Std.TransCmp.isLE_trans) (isLE_or_isLE cmp) hsorted
      List.filter_sublist).filter p
  simp only [List.filter_filter, Bool.and_self] at hsub
  exact (hsub.eq_of_length ((List.mergeSort_perm as _).filter p).length_eq.symm).symm

/-- If it does not show which of two items that tie comes first, they are equal. -/
theorem eq_of_mergeSort_eq {a b : α} (htie : cmp a b = .eq)
    (h : (a :: b :: as).mergeSort (fun a b => (cmp a b).isLE) =
      (b :: a :: as).mergeSort fun a b => (cmp a b).isLE) : a = b := by
  have hties (c d : α) (hc : decide (cmp c b = .eq) = true) (hd : decide (cmp d b = .eq) = true) :
      cmp c d = .eq :=
    Std.TransCmp.eq_trans (of_decide_eq_true hc)
      (Std.OrientedCmp.eq_symm (of_decide_eq_true hd))
  have hfilter := congrArg (List.filter fun c => decide (cmp c b = .eq)) h
  have hself : cmp b b = .eq := Std.ReflCmp.compare_self
  rw [filter_mergeSort cmp hties, filter_mergeSort cmp hties] at hfilter
  simp only [List.filter_cons, htie, hself, decide_true, if_true, List.cons.injEq] at hfilter
  exact hfilter.1

end
end Quorum
