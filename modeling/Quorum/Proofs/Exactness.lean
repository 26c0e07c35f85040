import Quorum.Proofs.Review

/-!
# Validation is exact

Both validations accept just what their rules say, and the one for new tasks reports what the other
does and then the votes that came too soon. So whichever of the two refuses a creation, it is with
the same first problem, and the review that asks both answers like the stricter one
(`Spec.validation_is_exact`).
-/
namespace Quorum

namespace Spec
variable {s : Spec}

/-- What a validation has found, with no problems for a validation that passed. It is easier to
compare than results are. -/
def Problems.found : Except Problems Unit → List Problem
  | .ok () => []
  | .error ps => ps.toList

@[simp] theorem Problems.found_verdict (ps : List Problem) : found (verdict ps) = ps := by
  cases ps <;> rfl

/-- What is wrong with a specification is wrong with it in a new task, and comes first. -/
theorem found_validate_before (s : Spec) :
    Problems.found s.validate <+: Problems.found s.validateNew := by
  rw [validate, validateNew, Problems.found_verdict, Problems.found_verdict]
  exact List.prefix_append s.problems s.votedProblems

theorem validateNew_of_error {ps : Problems} (h : s.validate = .error ps) :
    ∃ qs, s.validateNew = .error qs ∧ qs.first = ps.first := by
  rw [validate] at h
  cases hproblems : s.problems with
  | nil =>
    rw [hproblems] at h
    cases h
  | cons p problems =>
    rw [hproblems] at h
    cases h
    refine ⟨⟨p, problems ++ s.votedProblems⟩, ?_, rfl⟩
    rw [validateNew, creationProblems, hproblems]
    rfl

theorem validateNew_eq_ok_iff_validate :
    s.validateNew = .ok () ↔ s.validate = .ok () ∧ s.AllPending := by
  rw [validateNew_eq_ok_iff, validate_eq_ok_iff]

end Spec

namespace Admission
variable {r : Request} {t : Task}

/-- What a creation is answered when its specification was judged so. -/
def creationAnswer : Except Spec.Problems Unit → Response
  | .ok () => ⟨true, none⟩
  | .error ps => ⟨false, some ("validation failed: " ++ ps.first.text)⟩

/-- A creation is judged twice, and the first verdict never shows. -/
theorem respond_create (hop : r.operation = .create)
    (ht : Task.decoder.ofJson r.object = .ok t) :
    respond r = creationAnswer t.spec.validateNew := by
  have hreview : review r = t.spec.validate.mapError .invalid >>= fun _ =>
      t.spec.validateNew.mapError .invalid := by
    rw [review, ht, hop]
    rfl
  rw [respond, hreview]
  -- Only the first problem is shown, and it is the same one if the first verdict refuses.
  cases hvalid : t.spec.validate with
  | error ps =>
    obtain ⟨qs, hnew, hfirst⟩ := Spec.validateNew_of_error hvalid
    rw [hnew, creationAnswer, hfirst]
    rfl
  | ok _ =>
    cases t.spec.validateNew with
    | error qs => rfl
    | ok _ => rfl

end Admission

/-- Validation accepts the well-formed specifications and nothing else. For a new task, votes that
came too soon are reported behind everything else, so that nothing is accepted but what is valid and
all pending; and this is how a creation is answered. -/
theorem Spec.validation_is_exact (s : Spec) :
    (s.validate = .ok () ↔ s.WellFormed) ∧
    Problems.found s.validate <+: Problems.found s.validateNew ∧
    (s.validateNew = .ok () ↔ s.validate = .ok () ∧ s.AllPending) ∧
    ∀ (r : Admission.Request) (t : Task), r.operation = .create →
      Task.decoder.ofJson r.object = .ok t → t.spec = s →
      Admission.respond r = Admission.creationAnswer s.validateNew := by
  refine ⟨validate_eq_ok_iff, found_validate_before s, validateNew_eq_ok_iff_validate, ?_⟩
  rintro r t hop ht rfl
  exact Admission.respond_create hop ht

/-- An approval that comes too soon, and behind it a user that is named like a group. -/
def hastySpec : Spec := ⟨[{ Approver.user "ann" with vote := .approve }, .user "group:qa"], 1, none⟩

theorem hastySpec_denied_for_name :
    Spec.Problems.found hastySpec.validateNew =
      [⟨.name 1, .groupMarkInUserName⟩, ⟨.vote 0, .alreadyVoted .approve⟩] ∧
    Admission.respond (.create ⟨"eve", []⟩ ⟨{ name := "gate" }, hastySpec, {}⟩) =
      ⟨false, some ("validation failed: approvers[1].name: username cannot start with 'group:' " ++
        "prefix - use type: Group for group approvers")⟩ := by
  obtain ⟨-, -, -, hanswer⟩ := hastySpec.validation_is_exact
  refine ⟨by rfl, ?_⟩
  rw [hanswer (.create ⟨"eve", []⟩ ⟨{ name := "gate" }, hastySpec, {}⟩) _ rfl rfl rfl]
  decide

end Quorum
