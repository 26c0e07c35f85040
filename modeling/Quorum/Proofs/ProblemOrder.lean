import Mathlib.Data.List.Pairwise
import Mathlib.Order.Bounds.Basic
import Quorum.Proofs.Exactness

/-!
# Problems in document order

A problem names its approver in its path, and the index is read back from there
(`Spec.names_path_iff`). One round over the approvers reports in their order, so the first problem
is on the earliest approver that has any. Validation makes one round; for a new task a second one
looks for votes that came too soon and reports behind the first. So there the order is kept unless
somebody voted in front of an approver that is faulty otherwise
(`Spec.in_order_unless_voted_in_front`).
-/
namespace Quorum

namespace Spec
variable {s : Spec} {i j : Nat}

/-- The path leads into the approver at an index. -/
def Names (path : String) (i : Nat) : Prop := s!"approvers[{i}].".toList <+: path.toList

/-- The index is read back from the path. -/
theorem Names.digits {path : String} (h : Names path i) :
    (path.toList.drop 10).takeWhile (· ≠ ']') = Nat.toDigits 10 i := by
  obtain ⟨rest, hrest⟩ := h
  have hpath : path.toList = "approvers[".toList ++ (Nat.toDigits 10 i ++ ']' :: '.' :: rest) := by
    rw [← hrest]
    simp [toString, Nat.toList_repr]
  have hdigits : ∀ c ∈ Nat.toDigits 10 i, decide (c ≠ ']') = true := by
    intro c hc
    have hdigit : c.isDigit = true := Nat.isDigit_of_mem_toDigits (by decide) (by decide) hc
    have hne : c ≠ ']' := by
      rintro rfl
      cases hdigit
    simpa using hne
  rw [hpath, List.drop_left' (by rfl), List.takeWhile_append_of_pos hdigits]
  simp

theorem Names.eq {path : String} (hi : Names path i) (hj : Names path j) : i = j := by
  have hdigits : Nat.toDigits 10 i = Nat.toDigits 10 j := hi.digits.symm.trans hj.digits
  calc
    i = Nat.ofDigitChars 10 (Nat.toDigits 10 i) 0 := Nat.ofDigitChars_ten_toDigits.symm
    _ = Nat.ofDigitChars 10 (Nat.toDigits 10 j) 0 := by rw [hdigits]
    _ = j := Nat.ofDigitChars_ten_toDigits

theorem names_path {p : Place} (h : p.approver? = some i) : Names p.path i := by
  cases p with
  | required => cases h
  | approvers => cases h
  | _ =>
    cases h
    simp [Names, Place.path, toString]

theorem names_path_iff {p : Place} : Names p.path i ↔ p.approver? = some i := by
  refine ⟨fun h => ?_, names_path⟩
  cases hp : p.approver? with
  | some j => rw [h.eq (names_path hp)]
  | none =>
    have hmark : "approvers[".toList <+: p.path.toList :=
      List.IsPrefix.trans ⟨Nat.toDigits 10 i ++ [']', '.'], by simp [toString, Nat.toList_repr]⟩ h
    cases p with
    | required => exact absurd hmark (by decide)
    | approvers => exact absurd hmark (by decide)
    | _ => cases hp

/-- The problem is one of the approver at an index, as its path says. -/
def Problem.On (p : Problem) (i : Nat) : Prop := Names p.place.path i

theorem Problem.on_iff {p : Problem} : p.On i ↔ p.place.approver? = some i := names_path_iff

/-- Behind a problem of an approver stand only problems of that approver and of later ones. -/
def InOrder (ps : List Problem) : Prop := ps.Pairwise fun p q => ∀ i, p.On i → ∃ j, q.On j ∧ i ≤ j

/-- The first problem, but for one with the number of approvals, is on the approver. -/
def FirstOn (ps : List Problem) (i : Nat) : Prop :=
  ∃ p, (ps.filter (·.place ≠ .required)).head? = some p ∧ p.On i

variable {ps qs : List Problem} {f g : Approver × Nat → List Problem} {as : List Approver}

theorem mem_round_iff {p : Problem} :
    p ∈ as.zipIdx.flatMap f ↔ ∃ i a, as[i]? = some a ∧ p ∈ f (a, i) := by
  simp only [List.mem_flatMap, Prod.exists, List.mk_mem_zipIdx_iff_getElem?]
  exact exists_comm

/-- What is reported for an approver is on that approver. -/
def Placed (f : Approver × Nat → List Problem) : Prop := ∀ a i, ∀ p ∈ f (a, i), p.On i

theorem Placed.exists_on_iff (h : Placed f) :
    (∃ p ∈ as.zipIdx.flatMap f, p.On i) ↔ ∃ a, as[i]? = some a ∧ f (a, i) ≠ [] := by
  constructor
  · rintro ⟨p, hp, hon⟩
    obtain ⟨j, a, ha, hmem⟩ := mem_round_iff.mp hp
    obtain rfl : j = i := (h a j p hmem).eq hon
    exact ⟨a, ha, List.ne_nil_of_mem hmem⟩
  · rintro ⟨a, ha, hne⟩
    obtain ⟨p, hp⟩ := List.exists_mem_of_ne_nil _ hne
    exact ⟨p, mem_round_iff.mpr ⟨i, a, ha, hp⟩, h a i p hp⟩

theorem Placed.inOrder (h : Placed f) : InOrder (as.zipIdx.flatMap f) := by
  have hsorted : as.zipIdx.Pairwise (·.2 < ·.2) := by
    rw [← List.pairwise_map, List.zipIdx_map_snd]
    exact List.pairwise_lt_range'
  refine List.pairwise_flatMap.mpr ⟨fun x _ => ?_, hsorted.imp fun hlt p hp q hq i hi => ?_⟩
  · refine List.pairwise_of_forall_mem_list fun p hp q hq i hi => ?_
    obtain rfl := (h x.1 x.2 p hp).eq hi
    exact ⟨_, h x.1 x.2 q hq, le_refl _⟩
  · obtain rfl := (h _ _ p hp).eq hi
    exact ⟨_, h _ _ q hq, hlt.le⟩

theorem not_on_of_required {p : Problem} (h : p.place = .required) : ¬ p.On i := by
  rw [Problem.on_iff, h]
  intro hnone
  cases hnone

/-- Problems of the whole specification change nothing about the approvers behind them. -/
theorem inOrder_append_iff (h : ∀ p ∈ ps, ∀ i, ¬ p.On i) : InOrder (ps ++ qs) ↔ InOrder qs := by
  have hps : InOrder ps :=
    List.pairwise_of_forall_mem_list fun p hp _ _ i hi => absurd hi (h p hp i)
  rw [InOrder, List.pairwise_append]
  exact ⟨fun hall => hall.2.1, fun hqs => ⟨hps, hqs, fun p hp _ _ i hi => absurd hi (h p hp i)⟩⟩

theorem firstOn_append_iff (h : ∀ p ∈ ps, ∀ i, ¬ p.On i)
    (hrequired : qs ≠ [] → ∀ p ∈ ps, p.place = .required) :
    FirstOn (ps ++ qs) i ↔ FirstOn qs i := by
  by_cases hnil : qs = []
  · subst hnil
    rw [List.append_nil]
    refine iff_of_false ?_ (by rintro ⟨p, ⟨⟩, -⟩)
    rintro ⟨p, hp, hi⟩
    exact h p (List.mem_of_mem_filter (List.mem_of_mem_head? hp)) i hi
  · have hnone : ps.filter (·.place ≠ .required) = [] := by simpa using hrequired hnil
    rw [FirstOn, List.filter_append, hnone, List.nil_append, FirstOn]

theorem filter_eq_self_of_on (h : ∀ p ∈ ps, ∃ i, p.On i) :
    ps.filter (·.place ≠ .required) = ps := by
  rw [List.filter_eq_self]
  intro p hp
  obtain ⟨i, hi⟩ := h p hp
  simpa using fun hplace => not_on_of_required hplace hi

theorem InOrder.firstOn_iff (h : InOrder ps) (hon : ∀ p ∈ ps, ∃ i, p.On i) :
    FirstOn ps i ↔ IsLeast {j | ∃ p ∈ ps, p.On j} i := by
  rw [FirstOn, filter_eq_self_of_on hon]
  cases ps with
  | nil => exact iff_of_false (by rintro ⟨p, ⟨⟩, -⟩) (by rintro ⟨⟨p, ⟨⟩, -⟩, -⟩)
  | cons p ps =>
    obtain ⟨j, hj⟩ := hon p List.mem_cons_self
    have hleast : IsLeast {j | ∃ q ∈ p :: ps, q.On j} j := by
      refine ⟨⟨p, List.mem_cons_self, hj⟩, ?_⟩
      rintro k ⟨q, hq, hk⟩
      rcases List.mem_cons.mp hq with rfl | hq
      · exact (hj.eq hk).le
      · obtain ⟨l, hl, hle⟩ := (List.pairwise_cons.mp h).1 q hq j hj
        rwa [hl.eq hk] at hle
    constructor
    · rintro ⟨q, ⟨⟩, hi⟩
      rwa [hi.eq hj]
    · intro hi
      exact ⟨p, rfl, hi.unique hleast ▸ hj⟩

theorem Placed.exists_on_of_mem (h : Placed f) {p : Problem} (hp : p ∈ as.zipIdx.flatMap f) :
    ∃ i, p.On i := by
  obtain ⟨i, a, -, hp⟩ := mem_round_iff.mp hp
  exact ⟨i, h a i p hp⟩

/-- A second round keeps the order if it reports nothing in front of what the first has found. -/
theorem inOrder_rounds_iff (hf : Placed f) (hg : Placed g) :
    InOrder (as.zipIdx.flatMap f ++ as.zipIdx.flatMap g) ↔
      ∀ i j, (∃ q ∈ as.zipIdx.flatMap g, q.On i) → (∃ p ∈ as.zipIdx.flatMap f, p.On j) → j ≤ i := by
  rw [InOrder, List.pairwise_append]
  constructor
  · rintro ⟨-, -, h⟩ i j ⟨q, hq, hi⟩ ⟨p, hp, hj⟩
    obtain ⟨k, hk, hle⟩ := h p hp q hq j hj
    rwa [hi.eq hk]
  · intro h
    refine ⟨hf.inOrder, hg.inOrder, fun p hp q hq j hj => ?_⟩
    obtain ⟨i, hi⟩ := hg.exists_on_of_mem hq
    exact ⟨i, hi, h i j ⟨q, hq, hi⟩ ⟨p, hp, hj⟩⟩

/-- What a second round finds is shown first only if the first one has found nothing. -/
theorem firstOn_rounds_iff (hf : Placed f) (hg : Placed g) :
    FirstOn (as.zipIdx.flatMap f ++ as.zipIdx.flatMap g) i ↔
      IsLeast {j | ∃ p ∈ as.zipIdx.flatMap f, p.On j} i ∨
        (∀ j, ¬ ∃ p ∈ as.zipIdx.flatMap f, p.On j) ∧
          IsLeast {j | ∃ p ∈ as.zipIdx.flatMap g, p.On j} i := by
  rw [← hf.inOrder.firstOn_iff fun _ => hf.exists_on_of_mem,
    ← hg.inOrder.firstOn_iff fun _ => hg.exists_on_of_mem]
  cases hround : as.zipIdx.flatMap f with
  | nil => simp [FirstOn]
  | cons p ps =>
    have hp : p ∈ as.zipIdx.flatMap f := hround ▸ List.mem_cons_self
    obtain ⟨j, hj⟩ := hf.exists_on_of_mem hp
    have hne : p.place ≠ .required := fun hplace => not_on_of_required hplace hj
    have hfirst : FirstOn (p :: ps ++ as.zipIdx.flatMap g) i ↔ FirstOn (p :: ps) i := by
      simp [FirstOn, hne]
    rw [hfirst]
    exact (or_iff_left fun h => h.1 j ⟨p, List.mem_cons_self, hj⟩).symm

/-- Something is wrong with the approver at an index, or it repeats an earlier one. -/
def FaultyAt (s : Spec) (i : Nat) : Prop :=
  ∃ a, s.approvers[i]? = some a ∧ ¬ (a.WellFormed ∧ ∀ b ∈ s.approvers.take i, b.key ≠ a.key)

/-- The approver at an index, or one of its members, has voted. -/
def VotedAt (s : Spec) (i : Nat) : Prop :=
  ∃ a, s.approvers[i]? = some a ∧ ¬ (a.vote = .pending ∧ ∀ m ∈ a.members, m.vote = .pending)

theorem place_of_mem_problemIf {found : Option Defect} {place : Place} {p : Problem}
    (h : p ∈ problemIf found place) : p.place = place := by
  cases found with
  | none => cases h
  | some d =>
    rw [List.mem_singleton.mp h]

/-- What is found wrong with an approver, given those in front of it. -/
def faults (approvers : List Approver) (x : Approver × Nat) : List Problem :=
  approverProblems x.2 x.1 ++ repetitionProblems x.2 (approvers.take x.2) x.1

/-- The votes of an approver that came too soon. -/
def earlyVotes (x : Approver × Nat) : List Problem :=
  problemIf (if x.1.vote = .pending then none else some (.alreadyVoted x.1.vote)) (.vote x.2) ++
    x.1.members.zipIdx.flatMap fun (m, j) =>
      problemIf (if m.vote = .pending then none else some (.alreadyVoted m.vote))
        (.memberVote x.2 j)

theorem approver?_of_mem_approverProblems {a : Approver} {p : Problem}
    (h : p ∈ approverProblems i a) : p.place.approver? = some i := by
  simp only [approverProblems, List.mem_append] at h
  rcases h with (h | h) | h
  · unfold kindProblems at h
    split at h
    · rw [place_of_mem_problemIf h, Place.approver?]
    · rw [place_of_mem_problemIf h, Place.approver?]
    · rw [List.mem_singleton.mp h, Place.approver?]
  · rw [place_of_mem_problemIf h, Place.approver?]
  · split at h
    · cases h
    split at h
    · simp only [membersProblems, memberProblems, List.mem_flatMap, List.mem_append] at h
      obtain ⟨x, -, (h | h) | h⟩ := h
      · rw [place_of_mem_problemIf h, Place.approver?]
      · rw [place_of_mem_problemIf h, Place.approver?]
      · rw [place_of_mem_problemIf h, Place.approver?]
    · rw [List.mem_singleton.mp h, Place.approver?]

theorem placed_faults : Placed (faults as) := by
  intro a i p hp
  rw [Problem.on_iff]
  rcases List.mem_append.mp hp with hp | hp
  · exact approver?_of_mem_approverProblems hp
  · rw [place_of_mem_problemIf hp, Place.approver?]

theorem placed_earlyVotes : Placed earlyVotes := by
  intro a i p hp
  rw [Problem.on_iff]
  rcases List.mem_append.mp hp with hp | hp
  · rw [place_of_mem_problemIf hp, Place.approver?]
  · obtain ⟨x, -, hp⟩ := List.mem_flatMap.mp hp
    rw [place_of_mem_problemIf hp, Place.approver?]

theorem faults_eq_nil_iff {a : Approver} :
    faults as (a, i) = [] ↔ a.WellFormed ∧ ∀ b ∈ as.take i, b.key ≠ a.key := by
  rw [faults, List.append_eq_nil_iff, approverProblems_eq_nil_iff, repetitionProblems_eq_nil_iff]

theorem earlyVotes_eq_nil_iff {a : Approver} :
    earlyVotes (a, i) = [] ↔ a.vote = .pending ∧ ∀ m ∈ a.members, m.vote = .pending := by
  simp only [earlyVotes, List.append_eq_nil_iff, problemIf_eq_nil_iff, ite_eq_left_iff,
    reduceCtorEq, imp_false, not_not, zipIdx_flatMap_eq_nil_iff, List.mem_iff_getElem?,
    forall_exists_index]
  exact and_congr_right fun _ => ⟨fun h m j hj => h j m hj, fun h j m hj => h m j hj⟩

theorem exists_on_faults_iff :
    (∃ p ∈ s.approvers.zipIdx.flatMap (faults s.approvers), p.On i) ↔ s.FaultyAt i := by
  rw [placed_faults.exists_on_iff]
  simp only [ne_eq, faults_eq_nil_iff, FaultyAt]

theorem exists_on_earlyVotes_iff :
    (∃ p ∈ s.approvers.zipIdx.flatMap earlyVotes, p.On i) ↔ s.VotedAt i := by
  rw [placed_earlyVotes.exists_on_iff]
  simp only [ne_eq, earlyVotes_eq_nil_iff, VotedAt]

/-- What is wrong with the specification as a whole comes first. -/
theorem exists_lead (s : Spec) : ∃ lead,
    s.problems = lead ++ s.approvers.zipIdx.flatMap (faults s.approvers) ∧
    (∀ p ∈ lead, ∀ i, ¬ p.On i) ∧ (s.approvers ≠ [] → ∀ p ∈ lead, p.place = .required) := by
  let lead := if s.required ≤ 0 then [Problem.mk .required (.notPositive s.required)] else []
  have hlead : ∀ p ∈ lead, p.place = .required := by
    intro p hp
    simp only [lead] at hp
    split at hp
    · rw [List.mem_singleton.mp hp]
    · cases hp
  have hnone : ∀ p ∈ lead, ∀ i, ¬ p.On i := fun p hp _ => not_on_of_required (hlead p hp)
  by_cases hnil : s.approvers = []
  · refine ⟨lead ++ [⟨.approvers, .missing⟩], ?_, fun p hp i => ?_, fun hne => absurd hnil hne⟩
    · simp [problems, lead, hnil]
    · rcases List.mem_append.mp hp with hp | hp
      · exact hnone p hp i
      · rw [List.mem_singleton.mp hp, Problem.on_iff]
        intro h
        cases h
  · refine ⟨lead, ?_, hnone, fun _ => hlead⟩
    simp only [problems, lead, List.isEmpty_iff, hnil, if_false]
    rfl

/-- Validation lists problems approver by approver, and the first one, but for one with the number
of approvals, is on the earliest approver that is faulty. For a new task the same comes first, and
the votes that came too soon behind it, again approver by approver: a vote shows first only if
nothing else is wrong, and the whole list is in order only if nobody voted in front of a faulty
approver. -/
theorem in_order_unless_voted_in_front (s : Spec) :
    InOrder (Problems.found s.validate) ∧
    (∀ i, FirstOn (Problems.found s.validate) i ↔ IsLeast {j | s.FaultyAt j} i) ∧
    (InOrder (Problems.found s.validateNew) ↔ ∀ i j, s.VotedAt i → s.FaultyAt j → j ≤ i) ∧
    ∀ i, FirstOn (Problems.found s.validateNew) i ↔
      IsLeast {j | s.FaultyAt j} i ∨ (∀ j, ¬ s.FaultyAt j) ∧ IsLeast {j | s.VotedAt j} i := by
  obtain ⟨lead, hproblems, hnone, hrequired⟩ := s.exists_lead
  have hcreation : s.creationProblems =
      lead ++ (s.approvers.zipIdx.flatMap (faults s.approvers) ++
        s.approvers.zipIdx.flatMap earlyVotes) := by
    rw [creationProblems, hproblems, List.append_assoc]
    rfl
  have hround : InOrder (s.approvers.zipIdx.flatMap (faults s.approvers)) := placed_faults.inOrder
  rw [validate, validateNew, Problems.found_verdict, Problems.found_verdict, hcreation, hproblems,
    inOrder_append_iff hnone, inOrder_append_iff hnone]
  refine ⟨hround, fun i => ?_, ?_, fun i => ?_⟩
  · rw [firstOn_append_iff hnone fun hne => hrequired (by rintro h; simp [h] at hne),
      hround.firstOn_iff fun _ => placed_faults.exists_on_of_mem]
    simp only [exists_on_faults_iff]
  · rw [inOrder_rounds_iff placed_faults placed_earlyVotes]
    simp only [exists_on_faults_iff, exists_on_earlyVotes_iff]
  · rw [firstOn_append_iff hnone fun hne => hrequired (by rintro h; simp [h] at hne),
      firstOn_rounds_iff placed_faults placed_earlyVotes]
    simp only [exists_on_faults_iff, exists_on_earlyVotes_iff]

/-- The name of the second approver is reported in front of the vote of the first. -/
theorem hastySpec_out_of_order :
    (Problems.found hastySpec.validateNew).map (·.place.path) =
      ["approvers[1].name", "approvers[0].input"] ∧
    ¬ InOrder (Problems.found hastySpec.validateNew) := by
  have hfound : Problems.found hastySpec.validateNew =
      [⟨.name 1, .groupMarkInUserName⟩, ⟨.vote 0, .alreadyVoted .approve⟩] := by rfl
  rw [hfound]
  refine ⟨by decide, fun horder => ?_⟩
  have hname : Problem.On ⟨.name 1, .groupMarkInUserName⟩ 1 := Problem.on_iff.mpr rfl
  have hvote : Problem.On ⟨.vote 0, .alreadyVoted .approve⟩ 0 := Problem.on_iff.mpr rfl
  obtain ⟨i, hi, hle⟩ := (List.pairwise_cons.mp horder).1 _ (List.mem_singleton_self _) 1 hname
  rw [hi.eq hvote] at hle
  omega

end Spec
end Quorum
