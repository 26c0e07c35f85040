import Quorum.Proofs.Finality
import Quorum.Proofs.Table

/-!
# A second pass finds nothing to do

Whatever a pass finds, it leaves a start on record and, beside a status that is still open, the
digest of the approvers (`Task.Attended`, `Pass.attended_left`). Of such a task a pass has nothing
left to ask but whether it is late (`Pass.plan_of_attended`). So a second pass writes nothing unless
the time has run out in between, and what a pass reports of its writes is what it has written
(`Pass.second_pass_is_idle`).
-/
namespace Quorum

/-- A pass has seen the task with the approvers that it has. -/
structure Task.Attended (t : Task) : Prop where
  started : ∃ start, t.status.startTime = some start
  counted : t.status.state.isFinal = false → t.digest? = some (.ofApprovers t.spec.approvers)

theorem Outcome.eq_pending_iff {o : Outcome} : o = .pending ↔ o.isFinal = false := by
  cases o <;> simp [isFinal]

theorem stateM_get_apply (s : σ) : (get : StateM σ σ) s = (s, s) := rfl

namespace Pass
variable {t : Task} {s s' : Store} {key : String} {start now : Instant} {limit : Span}
  {write : Task → StateM Store (Except StoreError Task)}

/-- The task that a pass leaves in the place of `t`. -/
def left (t : Task) (now : Instant) (limit : Span) : Task :=
  let p := plan t now limit
  if p.changed then Store.reported t p.task else t

theorem left_of_changed (h : (plan t now limit).changed = true) :
    left t now limit = Store.reported t (plan t now limit).task := if_pos h

theorem left_of_unchanged (h : (plan t now limit).changed = false) : left t now limit = t := by
  simp only [left, h, Bool.false_eq_true, if_false]

@[simp] theorem key_left (t : Task) (now : Instant) (limit : Span) :
    (left t now limit).key = t.key := by
  cases h : (plan t now limit).changed with
  | true => rw [left_of_changed h, Store.key_reported]
  | false => rw [left_of_unchanged h]

theorem status_left (t : Task) (now : Instant) (limit : Span) :
    (left t now limit).status = (plan t now limit).task.status := by
  cases h : (plan t now limit).changed with
  | true => rw [left_of_changed h, Store.status_reported]
  | false => rw [left_of_unchanged h, plan_task_of_unchanged h]

theorem runWith_of_absent (h : s.get? key = none) :
    runWith get write key now limit s = (.error (.notFound key), s) := by
  have hget : s.get key = .error (.notFound key) := by rw [Store.get, h]
  rw [runWith, stateM_bind_apply, stateM_get_apply, hget]
  rfl

theorem runWith_of_unchanged (ht : s.get? key = some t)
    (hchanged : (plan t now limit).changed = false) :
    runWith get write key now limit s = (.ok ((plan t now limit).report now limit), s) := by
  rw [runWith, stateM_bind_apply, stateM_get_apply, Store.get_eq_ok_iff.mpr ht]
  simp only [hchanged, Bool.false_eq_true, if_false]
  rfl

/-- A pass that has something to write fails if the write does. -/
theorem runWith_of_changed (ht : s.get? key = some t)
    (hchanged : (plan t now limit).changed = true) :
    runWith get write key now limit s =
      (Except.map (fun _ => (plan t now limit).report now limit) <$>
        write (plan t now limit).task) s := by
  rw [runWith, stateM_bind_apply, stateM_get_apply, Store.get_eq_ok_iff.mpr ht]
  simp only [hchanged, if_true, stateM_bind_apply]
  change _ = (Except.map _ (write (plan t now limit).task s).1, (write (plan t now limit).task s).2)
  cases (write (plan t now limit).task s).1 with
  | error e => rfl
  | ok written => rfl

/-- A pass over a task that is stored ends well, and says how it has left the task. -/
theorem run_of_stored (now : Instant) (limit : Span) (ht : s.get? key = some t) :
    ∃ s', run key now limit s = (.ok ((plan t now limit).report now limit), s') ∧
      s'.get? key = some (left t now limit) ∧ ((plan t now limit).changed = false → s' = s) := by
  cases h : (plan t now limit).changed with
  | true =>
    refine ⟨s.put (left t now limit), ?_, ?_, fun hunchanged => by cases hunchanged⟩
    · rw [run_of_changed ht h, left_of_changed h]
    · rw [Store.get?_put, key_left, Store.key_of_get? ht, if_pos rfl]
  | false =>
    exact ⟨s, runWith_of_unchanged ht h, by rw [ht, left_of_unchanged h], fun _ => rfl⟩

/-- A pass that ends well has found a task. -/
theorem exists_of_run {report : Report} (hrun : run key now limit s = (.ok report, s')) :
    ∃ t, s.get? key = some t ∧ report = (plan t now limit).report now limit ∧
      s'.get? key = some (left t now limit) ∧ ((plan t now limit).changed = false → s' = s) := by
  cases ht : s.get? key with
  | none =>
    rw [run, runWith_of_absent ht] at hrun
    cases hrun
  | some t =>
    obtain ⟨s₁, hstored, hleft, hstays⟩ := run_of_stored now limit ht
    obtain ⟨hreport, rfl⟩ := Prod.mk.inj (hrun.symm.trans hstored)
    exact ⟨t, rfl, Except.ok.inj hreport, hleft, hstays⟩

theorem digest?_count (t : Task) :
    (count t).1.digest? = some (.ofApprovers t.spec.approvers) := by
  by_cases hdigest : t.digest? = some (.ofApprovers t.spec.approvers)
  · rw [count_of_digest hdigest, hdigest]
  · rw [count_of_digest_ne hdigest]
    exact Task.digest?_withDigest _ _

theorem digest?_expire (t : Task) (start now : Instant) (limit : Span) :
    (expire t start now limit).1.digest? = t.digest? := by
  unfold expire
  split
  · rfl
  · rfl

theorem attended_plan (t : Task) (now : Instant) (limit : Span) :
    (plan t now limit).task.Attended := by
  refine ⟨⟨_, startTime_plan t now limit⟩, fun hopen => ?_⟩
  rw [(keeps_plan t now limit).spec_eq]
  rw [plan_task] at hopen ⊢
  by_cases hfinal : t.status.state.isFinal = true
  · rw [if_pos hfinal] at hopen
    cases hfinal.symm.trans hopen
  · rw [if_neg hfinal, digest?_expire, digest?_count]
    rfl

theorem attended_left (t : Task) (now : Instant) (limit : Span) : (left t now limit).Attended := by
  have hattended := attended_plan t now limit
  cases h : (plan t now limit).changed with
  | true =>
    rw [left_of_changed h]
    refine ⟨hattended.started, fun hopen => ?_⟩
    rw [Store.spec_reported, ← (keeps_plan t now limit).spec_eq]
    exact hattended.counted hopen
  | false =>
    rw [left_of_unchanged h]
    rwa [plan_task_of_unchanged h] at hattended

theorem expire_of_final (hfinal : t.status.state.isFinal = true) :
    expire t start now limit = (t, false) := by
  unfold expire
  rw [if_neg]
  intro h
  rw [Bool.and_eq_true, decide_eq_true_eq, Outcome.eq_pending_iff] at h
  cases hfinal.symm.trans h.1

theorem expire_of_in_time (htime : Deadline.exceeded start now limit = false) :
    expire t start now limit = (t, false) := by
  simp [expire, htime]

theorem expire_of_late (hpending : t.status.state = .pending)
    (hlate : Deadline.exceeded start now limit = true) :
    expire t start now limit =
      ({ t with
          status.state := .rejected
          status.reason := some (Deadline.reason t.metadata.name) }, true) := by
  simp [expire, hpending, hlate]

/-- All that is left to do for a task that a pass has seen is to reject it if it is late. -/
theorem plan_of_attended (h : t.Attended) (hstart : t.status.startTime = some start) :
    plan t now limit =
      ⟨(expire t start now limit).1, start, (expire t start now limit).2⟩ := by
  have hstarted : withStart t now = t := withStart_of_started (by rw [hstart]; rfl)
  have hstartOf : startOf t now = start := by rw [startOf, hstart, Option.getD_some]
  unfold plan
  simp only [hstarted, hstartOf, hstart, Option.isNone_some, Bool.false_or]
  cases hfinal : t.status.state.isFinal with
  | true => simp only [if_true, expire_of_final hfinal]
  | false =>
    simp only [Bool.false_eq_true, if_false, count_of_digest (h.counted hfinal), Bool.false_or]

/-- A second pass in time finds nothing to do, whatever has become of other tasks. -/
theorem run_of_attended (h : t.Attended) (ht : s.get? key = some t)
    (hstart : t.status.startTime = some start)
    (htime : t.status.state.isFinal = true ∨ Deadline.exceeded start now limit = false) :
    ∃ report, run key now limit s = (.ok report, s) ∧ report.updated = false ∧
      report.state = t.status.state := by
  have hexpire : expire t start now limit = (t, false) := by
    rcases htime with hfinal | hearly
    · exact expire_of_final hfinal
    · exact expire_of_in_time hearly
  have hplan : plan t now limit = ⟨t, start, false⟩ := by rw [plan_of_attended h hstart, hexpire]
  have hrun : run key now limit s = (.ok ((plan t now limit).report now limit), s) :=
    runWith_of_unchanged ht (congrArg Plan.changed hplan)
  exact ⟨_, hrun, congrArg Plan.changed hplan, by rw [hplan]; rfl⟩

/-- A pass says that it has written if and only if it has raised the version of its task by one, and
else it has left the store as it was. A second pass, with no write in between and before the time
has run out, writes nothing and reports the state that the first has left. -/
theorem second_pass_is_idle {report : Report} (hroom : s.HasRoom key)
    (hrun : run key now limit s = (.ok report, s')) :
    ∃ t t' start, s.get? key = some t ∧ s'.get? key = some t' ∧
      t'.status.startTime = some start ∧ t'.status.state = report.state ∧
      (report.updated = true ↔ t'.metadata.version = t.metadata.version + 1) ∧
      (report.updated = false ↔ s' = s) ∧
      ∀ later, t'.status.state.isFinal = true ∨ Deadline.exceeded start later limit = false →
        ∃ report', run key later limit s' = (.ok report', s') ∧ report'.updated = false ∧
          report'.state = report.state := by
  obtain ⟨t, ht, rfl, hleft, hstays⟩ := exists_of_run hrun
  obtain ⟨start, hstart⟩ := (attended_left t now limit).started
  have hstate : (left t now limit).status.state = (plan t now limit).task.status.state := by
    rw [status_left]
  have hrises (h : (plan t now limit).changed = true) :
      (left t now limit).metadata.version = t.metadata.version + 1 := by
    rw [left_of_changed h, Store.version_reported, Store.nextVersion_of_lt (hroom t ht)]
  refine ⟨t, left t now limit, start, ht, hleft, hstart, hstate, ⟨hrises, fun hversion => ?_⟩,
    ⟨hstays, ?_⟩, fun later htime => ?_⟩
  · by_contra h
    rw [left_of_unchanged (Bool.eq_false_iff.mpr h)] at hversion
    omega
  · rintro rfl
    rw [← Bool.not_eq_true]
    intro h
    have hversion := hrises h
    rw [Option.some.inj (hleft.symm.trans ht)] at hversion
    omega
  · obtain ⟨report', hagain, hidle, hsame⟩ :=
      run_of_attended (attended_left t now limit) hleft hstart htime
    exact ⟨report', hagain, hidle, hsame.trans hstate⟩

/-- A task that no pass has seen, whose record of a digest is not one. -/
def strayTask : Task where
  metadata :=
    { name := "gate", version := 1, annotations := SortedMap.empty.insert Task.digestKey "none" }
  spec := Traffic.soleSpec .pending

theorem get?_strayTask : (Store.empty.put strayTask).get? "gate" = some strayTask :=
  (Store.get?_put Store.empty strayTask "gate").trans (if_pos rfl)

theorem state_left_strayTask :
    (left strayTask Draft.epoch Deadline.default).status.state = .pending := by
  let started := withStart strayTask Draft.epoch
  have hnone : started.digest? = none := by decide +kernel
  have hdigest : started.digest? ≠ some (.ofApprovers started.spec.approvers) := by simp [hnone]
  rw [status_left, plan_task, if_neg (by decide), count_of_digest_ne hdigest]
  rfl

/-- The first pass counts the votes and sets the start. The second one, at the deadline, is in
time. -/
theorem pass_at_deadline_is_idle :
    ∃ report s' report', (Store.empty.put strayTask).HasRoom "gate" ∧
      run "gate" Draft.epoch Deadline.default (Store.empty.put strayTask) = (.ok report, s') ∧
      report.updated = true ∧
      run "gate" (Draft.epoch.plus Deadline.default) Deadline.default s' = (.ok report', s') ∧
      report'.updated = false ∧ report'.state = .pending := by
  have hroom : (Store.empty.put strayTask).HasRoom "gate" :=
    (Store.hasRoom_empty "gate").put (by decide)
  have hchanged : (plan strayTask Draft.epoch Deadline.default).changed = true :=
    changed_of_unstarted rfl
  obtain ⟨s', hrun, hleft, -⟩ := run_of_stored Draft.epoch Deadline.default get?_strayTask
  obtain ⟨t, t', start, -, ht', hstart, hstate, -, -, hidle⟩ := second_pass_is_idle hroom hrun
  obtain rfl := Option.some.inj (hleft.symm.trans ht')
  have hepoch : start = Draft.epoch := by
    rw [status_left, startTime_plan] at hstart
    exact (Option.some.inj hstart).symm
  obtain ⟨report', hagain, hunchanged, hsame⟩ :=
    hidle (Draft.epoch.plus Deadline.default) (.inr (by rw [hepoch]; decide))
  refine ⟨_, _, report', hroom, hrun, hchanged, hagain, hunchanged, ?_⟩
  rw [hsame, ← hstate, state_left_strayTask]

end Pass
end Quorum
