import Quorum.Admission
import Quorum.Proofs.Authorization
import Quorum.Proofs.Validity

/-!
# What an allowed request has passed

A creation is allowed if its object decodes to a task whose specification is well-formed and all
pending; an update if both objects decode, the new specification is well-formed, and the edit is
authorised against the old task.
-/
namespace Quorum

theorem mapError_eq_ok_iff {x : Except ε α} {f : ε → δ} {a : α} :
    x.mapError f = .ok a ↔ x = .ok a := by
  cases x <;> simp [Except.mapError]

theorem bind_eq_ok_iff {x : Except ε α} {f : α → Except ε β} {b : β} :
    x >>= f = .ok b ↔ ∃ a, x = .ok a ∧ f a = .ok b := by
  cases x <;> simp [bind, Except.bind]

namespace Admission
variable {r : Request}

theorem respond_allowed_iff : (respond r).allowed = true ↔ review r = .ok () := by
  rw [respond]
  cases review r <;> simp

theorem respond_create_allowed_iff (hop : r.operation = .create) :
    (respond r).allowed = true ↔ ∃ new, Task.decoder.ofJson r.object = .ok new ∧
      new.spec.WellFormed ∧ new.spec.AllPending := by
  simp only [respond_allowed_iff, review, hop, bind_eq_ok_iff, mapError_eq_ok_iff,
    Spec.validateNew_eq_ok_iff]
  constructor
  · intro h
    obtain ⟨new, hnew, -, -, hvalid⟩ := h
    exact ⟨new, hnew, hvalid⟩
  · intro h
    obtain ⟨new, hnew, hvalid⟩ := h
    exact ⟨new, hnew, (), Spec.validate_eq_ok_iff.mpr hvalid.1, hvalid⟩

theorem respond_update_allowed_iff (hop : r.operation = .update) :
    (respond r).allowed = true ↔ ∃ new old, Task.decoder.ofJson r.object = .ok new ∧
      Task.decoder.ofJson (r.oldObject.getD .null) = .ok old ∧
      new.spec.WellFormed ∧ Guard.Cleared old new.spec r.user := by
  simp only [respond_allowed_iff, review, hop, bind_eq_ok_iff, mapError_eq_ok_iff,
    ← Guard.authorize_eq_allow_iff]
  constructor
  · intro h
    obtain ⟨new, hnew, ⟨⟩, hvalid, old, hold, hdecision⟩ := h
    replace hvalid := Spec.validate_eq_ok_iff.mp hvalid
    cases h : authorize old new.spec r.user with
    | allow => exact ⟨new, old, hnew, hold, hvalid, h⟩
    | deny d =>
      rw [h] at hdecision
      cases hdecision
  · intro h
    obtain ⟨new, old, hnew, hold, hvalid, hallow⟩ := h
    exact ⟨new, hnew, (), Spec.validate_eq_ok_iff.mpr hvalid, old, hold, by rw [hallow]; rfl⟩

/-- A creation is judged by what its object decodes to. -/
theorem create_allowed_iff {new : Task} (hop : r.operation = .create)
    (hnew : Task.decoder.ofJson r.object = .ok new) :
    (respond r).allowed = true ↔ new.spec.WellFormed ∧ new.spec.AllPending := by
  rw [respond_create_allowed_iff hop]
  constructor
  · intro h
    obtain ⟨new', hnew', hvalid⟩ := h
    obtain rfl : new' = new := Except.ok.inj (hnew'.symm.trans hnew)
    exact hvalid
  · intro hvalid
    exact ⟨new, hnew, hvalid⟩

theorem update_allowed_iff {old new : Task} (hop : r.operation = .update)
    (hold : Task.decoder.ofJson (r.oldObject.getD .null) = .ok old)
    (hnew : Task.decoder.ofJson r.object = .ok new) :
    (respond r).allowed = true ↔ new.spec.WellFormed ∧ Guard.Cleared old new.spec r.user := by
  rw [respond_update_allowed_iff hop]
  constructor
  · intro h
    obtain ⟨new', old', hnew', hold', hcleared⟩ := h
    obtain rfl : new' = new := Except.ok.inj (hnew'.symm.trans hnew)
    obtain rfl : old' = old := Except.ok.inj (hold'.symm.trans hold)
    exact hcleared
  · intro hcleared
    exact ⟨new, old, hnew, hold, hcleared⟩

/-- The update of one task to another is allowed if both survive their JSON. -/
theorem update_allowed_of_authorized {p : Principal} {old new : Task}
    (hold : Task.decoder.ofJson old.toJson = .ok old)
    (hnew : Task.decoder.ofJson new.toJson = .ok new) (hvalid : new.spec.problems = [])
    (hauthorized : authorize old new.spec p = .allow) :
    (respond (.update p new old)).allowed = true := by
  have hop : (Request.update p new old).operation = .update := rfl
  rw [update_allowed_iff hop hold hnew]
  exact ⟨Spec.problems_eq_nil_iff.mp hvalid, Guard.authorize_eq_allow_iff.mp hauthorized⟩

end Admission
end Quorum
