import Quorum.Aggregate

/-!
# Counting one specification after another

A count from a final status changes nothing, and a count from an open status takes nothing over but
the start (`Spec.aggregate_of_final`, `Spec.aggregate_of_open`). So of specifications that are
counted one after another only one shows: the first whose votes decide the task or, if there is
none, the last (`Spec.aggregateAll_shows_first_decision`).
-/
namespace Quorum.Spec
variable {previous : Option Status} {p : Status} {s : Spec}

/-- Whether the votes decide the task, by a rejection or by enough approvals, whatever the status
says so far. -/
def isDecided (s : Spec) : Bool := (s.tally.state s.required).isFinal

/-- The first of the specifications whose votes decide the task or, if there is none, the last. -/
def deciding : Spec → List Spec → Spec
  | s, [] => s
  | s, u :: us => if s.isDecided then s else deciding u us

/-- Counts `s`, and then each of the others from the status that the one before it has left. -/
def aggregateAll (previous : Option Status) (s : Spec) (others : List Spec) : Status :=
  others.foldl (fun status u => u.aggregate (some status)) (s.aggregate previous)

theorem final_or_open (previous : Option Status) :
    (∃ p, previous = some p ∧ p.state.isFinal = true) ∨
      ∀ p ∈ previous, p.state.isFinal = false := by
  cases previous with
  | none => exact .inr fun p hp => by cases hp
  | some p =>
    cases hfinal : p.state.isFinal with
    | true => exact .inl ⟨p, rfl, hfinal⟩
    | false =>
      refine .inr fun q hq => ?_
      rwa [← Option.mem_some_iff.mp hq]

theorem isFinal_aggregate (hopen : ∀ p ∈ previous, p.state.isFinal = false) :
    (s.aggregate previous).state.isFinal = s.isDecided := by
  rw [aggregate_of_open hopen]
  rfl

theorem open_aggregate (hopen : ∀ p ∈ previous, p.state.isFinal = false)
    (hundecided : s.isDecided = false) :
    ∀ p ∈ some (s.aggregate previous), p.state.isFinal = false := by
  intro p hp
  rw [← Option.mem_some_iff.mp hp]
  exact (isFinal_aggregate hopen).trans hundecided

theorem startTime_aggregate (s : Spec) (previous : Option Status) :
    (s.aggregate previous).startTime = previous.bind (·.startTime) := by
  rcases final_or_open previous with ⟨p, rfl, hfinal⟩ | hopen
  · rw [aggregate_of_final hfinal]
    rfl
  · rw [aggregate_of_open hopen]
    rfl

/-- What is counted already is not counted again: a second count of the same votes changes
nothing. -/
theorem aggregate_aggregate (s : Spec) (previous : Option Status) :
    s.aggregate (some (s.aggregate previous)) = s.aggregate previous := by
  rcases final_or_open previous with ⟨p, rfl, hfinal⟩ | hopen
  · rw [aggregate_of_final hfinal, aggregate_of_final hfinal]
  · cases hdecided : s.isDecided with
    | true => exact aggregate_of_final ((isFinal_aggregate hopen).trans hdecided)
    | false =>
      rw [aggregate_of_open (open_aggregate hopen hdecided), Option.bind_some,
        startTime_aggregate, aggregate_of_open hopen]

theorem aggregateAll_cons (previous : Option Status) (s u : Spec) (us : List Spec) :
    aggregateAll previous s (u :: us) = aggregateAll (some (s.aggregate previous)) u us := rfl

theorem aggregateAll_of_final (hfinal : p.state.isFinal = true) (s : Spec) (others : List Spec) :
    aggregateAll (some p) s others = p := by
  induction others generalizing s with
  | nil => exact aggregate_of_final hfinal
  | cons u us ih => rw [aggregateAll_cons, aggregate_of_final hfinal, ih]

theorem aggregateAll_of_open (hopen : ∀ p ∈ previous, p.state.isFinal = false) (s : Spec)
    (others : List Spec) :
    aggregateAll previous s others =
      (deciding s others).freshStatus (previous.bind (·.startTime)) := by
  induction others generalizing s previous with
  | nil => exact aggregate_of_open hopen
  | cons u us ih =>
    rw [aggregateAll_cons, deciding]
    cases hdecided : s.isDecided with
    | true =>
      have hfinal := (isFinal_aggregate hopen).trans hdecided
      rw [aggregateAll_of_final hfinal, if_pos rfl, aggregate_of_open hopen]
    | false =>
      rw [ih (open_aggregate hopen hdecided), Option.bind_some, startTime_aggregate,
        if_neg Bool.false_ne_true]

theorem aggregateAll_replicate (previous : Option Status) (s : Spec) (n : Nat) :
    aggregateAll previous s (List.replicate n s) = s.aggregate previous := by
  induction n generalizing previous with
  | zero => rfl
  | succ n ih => rw [List.replicate_succ, aggregateAll_cons, ih, aggregate_aggregate]

/-- No specification before the deciding one decides the task, and one that does not decide it
itself is the last. -/
theorem exists_split_deciding (s : Spec) (others : List Spec) :
    ∃ before after, s :: others = before ++ deciding s others :: after ∧
      (∀ u ∈ before, u.isDecided = false) ∧
      ((deciding s others).isDecided = true ∨ after = []) := by
  induction others generalizing s with
  | nil => exact ⟨[], [], rfl, by simp, .inr rfl⟩
  | cons u us ih =>
    rw [deciding]
    cases hdecided : s.isDecided with
    | true => exact ⟨[], u :: us, rfl, by simp, .inl hdecided⟩
    | false =>
      obtain ⟨before, after, hsplit, hbefore, hends⟩ := ih u
      rw [if_neg Bool.false_ne_true]
      refine ⟨s :: before, after, by rw [hsplit, List.cons_append], ?_, hends⟩
      exact List.forall_mem_cons.mpr ⟨hdecided, hbefore⟩

/-- Specifications that are counted one after another leave a final status as it was. From an open
one they come to what the first that decides the task, or else the last, is counted to on its own,
with the start that was on record. So counting one specification many times is counting it once. -/
theorem aggregateAll_shows_first_decision (previous : Option Status) (s : Spec)
    (others : List Spec) :
    aggregateAll previous s others =
      (previous.filter (·.state.isFinal)).getD
        { (deciding s others).aggregate none with startTime := previous.bind (·.startTime) } ∧
    (∃ before after, s :: others = before ++ deciding s others :: after ∧
      (∀ u ∈ before, u.isDecided = false) ∧
      ((deciding s others).isDecided = true ∨ after = [])) ∧
    ∀ n, aggregateAll previous s (List.replicate n s) = s.aggregate previous := by
  refine ⟨?_, exists_split_deciding s others, aggregateAll_replicate previous s⟩
  rcases final_or_open previous with ⟨p, rfl, hfinal⟩ | hopen
  · rw [aggregateAll_of_final hfinal, Option.filter_some, if_pos hfinal]
    rfl
  · have hnone : previous.filter (·.state.isFinal) = none :=
      Option.filter_eq_none_iff.mpr fun p hp => by simp [hopen p hp]
    rw [hnone, aggregateAll_of_open hopen]
    rfl

end Quorum.Spec
