import Quorum.Proofs.Accounts
import Quorum.Proofs.Attended
import Quorum.Proofs.Canonical
import Quorum.Proofs.Exactness
import Quorum.Proofs.Rightful

/-!
# The task of a run is ready

The task of a run is built with the status that counting its votes would give, and with the digest
of its approvers. So its creation is admitted, and the first pass over it, unless its time is up by
then, has nothing to count: it puts the start on record and leaves the rest as it was
(`TaskParams.built_task_is_ready`).
-/
namespace Quorum

namespace Pass
variable {t : Task} {now : Instant} {limit : Span}

/-- All that a first pass in time has to do for a task whose votes were counted is to say when it
started. -/
theorem plan_of_counted (hopen : t.status.state.isFinal = false)
    (hdigest : t.digest? = some (.ofApprovers t.spec.approvers))
    (hunstarted : t.status.startTime = none)
    (htime : Deadline.exceeded (startOf t now) now limit = false) :
    plan t now limit = ⟨withStart t now, startOf t now, true⟩ := by
  have hcount : count (withStart t now) = (withStart t now, false) := count_of_digest hdigest
  have hopen' : (withStart t now).status.state.isFinal = false := hopen
  unfold plan
  simp only [hopen', Bool.false_eq_true, if_false, hcount, expire_of_in_time htime, hunstarted,
    Option.isNone_none, Bool.true_or]

end Pass

namespace TaskParams
variable {p : TaskParams} {name : String} {created : Instant} {t : Task}

theorem legible_initial (hfits : Bounds.inInt64 p.required = true) :
    (Status.initial p.spec).Legible where
  required := hfits
  received := by rfl
  responses r hr := by cases hr
  startTime u hu := by cases hu

theorem legible_task (hvalid : p.spec.WellFormed) (hfits : Bounds.inInt64 p.required = true)
    (hcreated : created.Valid) : (p.task name created).Legible where
  version := Nat.zero_le _
  created u hu := by
    obtain rfl : created = u := Option.some.inj hu
    exact Instant.legible_iff_valid.mpr hcreated
  required := hfits
  spec := hvalid.legible
  status := legible_initial hfits

/-- A run's task has the status of its votes and the digest of its approvers. Whoever creates it is
admitted, if the number that it requires and the time of its creation can be written. Once it is
stored, and whatever becomes of other tasks, a first pass before its time is up sets the start to
the time of its creation and raises the version, and nothing else changes in the store. -/
theorem built_task_is_ready (hbuilt : p.toTask name created = .ok t) :
    t.status = t.spec.aggregate none ∧
    t.digest? = some (.ofApprovers t.spec.approvers) ∧
    (Bounds.inInt64 p.required = true → created.Valid → ∀ user,
      Admission.respond (.create user t) = ⟨true, none⟩) ∧
    ∀ (s s₀ : Store) (t₁ : Task), s.create t = .ok (t₁, s₀) → s₀.get? t.key = some t₁ ∧
      ∀ s₁ : Store, s₁.get? t.key = some t₁ → ∀ now limit,
        Deadline.exceeded created now limit = false →
        Pass.run t.key now limit s₁ =
          (.ok ⟨.pending, Deadline.remaining created now limit, true⟩,
            s₁.put { t₁ with
              status.startTime := some created
              metadata.version := t₁.metadata.version + 1 }) := by
  obtain ⟨hvalid, hpending, rfl⟩ := toTask_eq_ok_iff.mp hbuilt
  have hdigest : (p.task name created).digest? = some (.ofApprovers p.approvers) :=
    Task.digest?_withDigest _ _
  refine ⟨hpending.freshStatus_eq.symm, hdigest, fun hfits hcreated user => ?_,
    fun s s₀ t₁ hstored => ⟨Store.get?_of_create hstored, fun s₁ hget now limit htime => ?_⟩⟩
  · have hread : Task.decoder.ofJson
        (Admission.Request.create user (p.task name created)).object =
          .ok (p.task name created) := Task.ofJson_toJson (legible_task hvalid hfits hcreated)
    have hnew : (p.task name created).spec.validateNew = .ok () :=
      Spec.validateNew_eq_ok_iff.mpr ⟨hvalid, hpending⟩
    rw [Admission.respond_create rfl hread, hnew]
    rfl
  · obtain ⟨-, rfl, -⟩ := Store.create_eq_ok_iff.mp hstored
    set t₁ : Task := { p.task name created with metadata.version := 1 }
    have hspec : t₁.spec.approvers = p.approvers := rfl
    have hdigest₁ : t₁.digest? = some (.ofApprovers t₁.spec.approvers) := hspec ▸ hdigest
    have hstart : Pass.startOf t₁ now = created := rfl
    have hplan : Pass.plan t₁ now limit = ⟨Pass.withStart t₁ now, created, true⟩ :=
      hstart ▸ Pass.plan_of_counted rfl hdigest₁ rfl (hstart ▸ htime)
    rw [Pass.run_of_changed hget (congrArg Pass.Plan.changed hplan), hplan]
    rfl

/-- Two users with a group between them, of whom two must approve. -/
def relayParams : TaskParams where
  approvers := [.user "bob", .group "qa", .user "ann"]
  required := 2
  description := some "ship it"

/-- A first pass at the deadline is in time. -/
theorem relay_is_ready :
    ∃ t t₁ s₁, relayParams.toTask "relay" Draft.epoch = .ok t ∧
      t.status = t.spec.aggregate none ∧
      Admission.respond (.create ⟨"eve", []⟩ t) = ⟨true, none⟩ ∧
      Store.empty.create t = .ok (t₁, s₁) ∧
      Pass.run t.key (Draft.epoch.plus Deadline.default) Deadline.default s₁ =
        (.ok ⟨.pending, some .zero, true⟩,
          s₁.put { t₁ with
            status.startTime := some Draft.epoch
            metadata.version := t₁.metadata.version + 1 }) := by
  have hbuilt : relayParams.toTask "relay" Draft.epoch =
      .ok (relayParams.task "relay" Draft.epoch) := by rfl
  have hcreated : ∃ t₁ s₁,
      Store.empty.create (relayParams.task "relay" Draft.epoch) = .ok (t₁, s₁) := ⟨_, _, rfl⟩
  obtain ⟨t₁, s₁, hcreated⟩ := hcreated
  obtain ⟨hstatus, -, hadmitted, hpass⟩ := built_task_is_ready hbuilt
  obtain ⟨hstored, hpass⟩ := hpass _ _ _ hcreated
  refine ⟨_, t₁, s₁, hbuilt, hstatus, hadmitted (by decide) ⟨by decide, by decide⟩ _, hcreated, ?_⟩
  exact hpass s₁ hstored _ _ (by decide)

end TaskParams
end Quorum
