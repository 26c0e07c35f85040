import Quorum.Proofs.Rightful

/-!
# The status of a new task

A creation is admitted for its specification alone, and the store keeps the status that comes with
it. So a new task is undecided if and only if its object is (`Admission.created_undecided_iff`);
whatever status an object carries, a creation that carries it is admitted
(`Admission.create_allowed_of_legible`).
-/
namespace Quorum

/-- No outcome, no approvals and no responses: the status of a task on which nothing has been
counted. -/
structure Status.Undecided (s : Status) : Prop where
  pending : s.state = .pending
  none_received : s.received = 0
  no_responses : s.responses = []

theorem Status.undecided_default : Status.Undecided {} := ⟨rfl, rfl, rfl⟩

/-- A task that is written without a status has the one that nobody has voted on. -/
theorem Task.status_of_absent {t : Task} {members : List (String × Json)}
    (habsent : namedMembers ["status"] members = [])
    (h : Task.decoder.ofJson (.object members) = .ok t) : t.status = {} := by
  simp only [decoder, Decoder.record_eq_ok_iff, Fields.seq_eq_ok_iff, Fields.map_eq_ok_iff,
    Fields.withDefault] at h
  obtain ⟨_, status, ⟨_, spec, ⟨metadata, -, rfl⟩, -, rfl⟩, hstatus, rfl⟩ := h
  rw [Fields.field_eq_ok_iff_of_absent habsent] at hstatus
  exact (Option.some.inj hstatus).symm

namespace Admission
variable {r : Request} {t : Task} {s : Store}

theorem create_allowed_of_legible (p : Principal) (hlegible : t.Legible)
    (hvalid : t.spec.WellFormed) (hpending : t.spec.AllPending) :
    (respond (.create p t)).allowed = true :=
  (create_allowed_iff rfl (Task.ofJson_toJson hlegible)).mpr ⟨hvalid, hpending⟩

/-- A new task is stored with nobody's vote, under its first version, and undecided if and only if
the object that it was created from is. -/
theorem created_undecided_iff (hop : r.operation = .create)
    (ht : Task.decoder.ofJson r.object = .ok t) (hallowed : (respond r).allowed = true)
    (hfree : s.get? t.key = none) :
    ∃ stored s', s.create t = .ok (stored, s') ∧ s'.get? t.key = some stored ∧
      stored.metadata.version = 1 ∧ stored.spec.AllPending ∧
      (stored.status.Undecided ↔ t.status.Undecided) := by
  have hpending := ((create_allowed_iff hop ht).mp hallowed).2
  refine ⟨_, _, Store.create_eq_ok_iff.mpr ⟨hfree, rfl, rfl⟩, ?_, rfl, hpending, Iff.rfl⟩
  rw [Store.get?_put]
  exact if_pos rfl

theorem created_undecided_of_absent {members : List (String × Json)}
    (hobject : r.object = .object members) (habsent : namedMembers ["status"] members = [])
    (ht : Task.decoder.ofJson r.object = .ok t) : t.status.Undecided := by
  rw [hobject] at ht
  rw [Task.status_of_absent habsent ht]
  exact Status.undecided_default

/-- A gate that nobody has voted on, created with this status. -/
def gateWith (status : Status) : Task := ⟨{ name := "gate" }, ⟨[.user "ann"], 1, none⟩, status⟩

theorem initialGate_starts_undecided :
    ∃ stored s', Store.empty.create (gateWith {}) = .ok (stored, s') ∧
      s'.get? "gate" = some stored ∧ stored.status.Undecided := by
  have hcreation : Task.decoder.ofJson (Request.create ⟨"eve", []⟩ (gateWith {})).object =
      .ok (gateWith {}) := rfl
  obtain ⟨stored, s', hcreate, hget, -, -, hiff⟩ :=
    created_undecided_iff (r := .create ⟨"eve", []⟩ (gateWith {})) (s := Store.empty) rfl
      hcreation (by decide) rfl
  exact ⟨stored, s', hcreate, hget, hiff.mpr Status.undecided_default⟩

/-- A gate that says it is approved is admitted, and the task that is stored is approved from the
start. -/
theorem approvedGate_stays_approved :
    ∃ t stored s', Task.decoder.ofJson
        (Request.create ⟨"eve", []⟩ (gateWith { state := .approved })).object = .ok t ∧
      (respond (.create ⟨"eve", []⟩ (gateWith { state := .approved }))).allowed = true ∧
      Store.empty.create t = .ok (stored, s') ∧ s'.get? "gate" = some stored ∧
      stored.status.state = .approved ∧ ¬ stored.status.Undecided := by
  refine ⟨gateWith { state := .approved }, _, _, rfl, by decide, rfl, rfl, rfl, ?_⟩
  intro h
  cases h.pending

end Admission
end Quorum
