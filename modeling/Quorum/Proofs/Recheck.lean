import Quorum.Proofs.Attended

/-!
# Looking again in time

Whether a deadline has passed and how much time is left are two questions to one clock, and their
answers agree (`Deadline.exceeded_iff_remaining_eq_none`). So a task that a pass leaves open, and
that has a deadline, comes with a time at which to look again. A pass up to then finds the task in
time and changes nothing, and a pass after it rejects the task (`Pass.recheck_meets_deadline`).
-/
namespace Quorum

/-- The nanoseconds that an instant counts, if it is in no leap second. -/
def Instant.totalNanos (t : Instant) : Int := t.seconds * nanosPerSecond + t.nanos

theorem Instant.nanosSince_eq_sub {t start : Instant} (ht : t.inLeapSecond = false)
    (hstart : start.inLeapSecond = false) :
    t.nanosSince start = t.totalNanos - start.totalNanos :=
  nanosSince_eq ht hstart

namespace Deadline
variable {start now later : Instant} {limit left : Span}

/-- Time runs out exactly when none is left, also for a clock that stands before the start. -/
theorem exceeded_iff_remaining_eq_none (hlimit : limit.isZero = false) :
    exceeded start now limit = true ↔ remaining start now limit = none := by
  simp only [exceeded, remaining, hlimit, Bool.false_eq_true, if_false, Span.minus?_eq_none_iff]
  cases now.since? start with
  | none => simp [Span.zero]
  | some elapsed => simp

theorem remaining_of_zero (hlimit : limit.isZero = true) : remaining start now limit = none :=
  if_pos hlimit

theorem isZero_of_remaining (h : remaining start now limit = some left) :
    limit.isZero = false := by
  rw [← Bool.not_eq_true]
  intro hzero
  rw [remaining_of_zero hzero] at h
  cases h

theorem exceeded_iff_lt (hlimit : limit.isZero = false) (hnow : now.inLeapSecond = false)
    (hstart : start.inLeapSecond = false) :
    exceeded start now limit = true ↔ start.totalNanos + limit.nanos < now.totalNanos := by
  simp only [exceeded, hlimit, Instant.since?, Instant.nanosSince_eq_sub hnow hstart,
    Bool.false_eq_true, if_false]
  by_cases hback : 0 ≤ now.totalNanos - start.totalNanos
  · simp only [if_pos hback, decide_eq_true_eq]
    omega
  · simp only [if_neg hback, Bool.false_eq_true, false_iff]
    omega

theorem remaining_le (h : remaining start now limit = some left) :
    left.nanos ≤ limit.nanos := by
  simp only [remaining, isZero_of_remaining h, Bool.false_eq_true, if_false, Span.minus?,
    Option.ite_none_right_eq_some, Option.some.injEq] at h
  obtain ⟨-, rfl⟩ := h
  exact Nat.sub_le _ _

/-- A clock that stands before the start has the whole of the limit left. -/
theorem nanos_of_remaining (hnow : now.inLeapSecond = false) (hstart : start.inLeapSecond = false)
    (h : remaining start now limit = some left) :
    (left.nanos : Int) = limit.nanos - max 0 (now.totalNanos - start.totalNanos) := by
  simp only [remaining, isZero_of_remaining h, Bool.false_eq_true, if_false, Span.minus?,
    Option.ite_none_right_eq_some, Option.some.injEq, Instant.since?,
    Instant.nanosSince_eq_sub hnow hstart] at h
  obtain ⟨hle, rfl⟩ := h
  by_cases hback : 0 ≤ now.totalNanos - start.totalNanos
  · simp only [if_pos hback, Option.getD_some] at hle ⊢
    omega
  · simp only [if_neg hback, Option.getD_none, Span.zero] at hle ⊢
    omega

/-- The time that was left at `now` lasts until then. -/
theorem in_time_of_remaining (hnow : now.inLeapSecond = false)
    (hstart : start.inLeapSecond = false) (hlater : later.inLeapSecond = false)
    (h : remaining start now limit = some left)
    (huntil : later.totalNanos ≤ now.totalNanos + left.nanos) :
    exceeded start later limit = false := by
  have hleft := nanos_of_remaining hnow hstart h
  rw [← Bool.not_eq_true, exceeded_iff_lt (isZero_of_remaining h) hlater hstart]
  omega

/-- It lasts no longer, unless the clock stood before the start. -/
theorem late_of_remaining (hnow : now.inLeapSecond = false)
    (hstart : start.inLeapSecond = false) (hlater : later.inLeapSecond = false)
    (h : remaining start now limit = some left) (hbegun : start.totalNanos ≤ now.totalNanos)
    (hpast : now.totalNanos + left.nanos < later.totalNanos) :
    exceeded start later limit = true := by
  have hleft := nanos_of_remaining hnow hstart h
  rw [exceeded_iff_lt (isZero_of_remaining h) hlater hstart]
  omega

end Deadline

namespace Pass
variable {t : Task} {s s' : Store} {key : String} {start now : Instant} {limit : Span}

theorem plan_start (t : Task) (now : Instant) (limit : Span) :
    (plan t now limit).start = startOf t now := by
  cases hfinal : (withStart t now).status.state.isFinal with
  | true => simp [plan, hfinal]
  | false => simp [plan, hfinal]

/-- Whoever is late does not stay open, so a task that a pass leaves pending has time left or no
limit. -/
theorem in_time_of_open (hopen : (plan t now limit).task.status.state.isFinal = false) :
    Deadline.exceeded (startOf t now) now limit = false := by
  rw [plan_task] at hopen
  by_cases hfinal : t.status.state.isFinal = true
  · rw [if_pos hfinal] at hopen
    cases hfinal.symm.trans hopen
  · rw [if_neg hfinal] at hopen
    by_contra hlate
    rw [Bool.not_eq_false] at hlate
    cases hcounted : (count (withStart t now)).1.status.state.isFinal with
    | true =>
      rw [expire_of_final hcounted, hcounted] at hopen
      cases hopen
    | false =>
      rw [expire_of_late (Outcome.eq_pending_iff.mpr hcounted) hlate] at hopen
      cases hopen

/-- A pass at `now` finds the task at `key` open and leaves everything as it is. -/
def StaysOpen (key : String) (now : Instant) (limit : Span) (s : Store) : Prop :=
  ∃ report, run key now limit s = (.ok report, s) ∧ report.state = .pending

/-- A pass at `now` rejects the task at `key` for its time, and stores why. -/
def TimesOut (key : String) (now : Instant) (limit : Span) (s : Store) : Prop :=
  ∃ report s' t, run key now limit s = (.ok report, s') ∧ report.state = .rejected ∧
    s'.get? key = some t ∧ t.status.state = .rejected ∧
    t.status.reason = some (Deadline.reason t.metadata.name)

theorem staysOpen_of_in_time (h : t.Attended) (ht : s.get? key = some t)
    (hstart : t.status.startTime = some start) (hpending : t.status.state = .pending)
    (htime : Deadline.exceeded start now limit = false) : StaysOpen key now limit s := by
  obtain ⟨report, hrun, -, hstate⟩ := run_of_attended h ht hstart (.inr htime)
  exact ⟨report, hrun, hstate.trans hpending⟩

theorem timesOut_of_late (h : t.Attended) (ht : s.get? key = some t)
    (hstart : t.status.startTime = some start) (hpending : t.status.state = .pending)
    (hlate : Deadline.exceeded start now limit = true) : TimesOut key now limit s := by
  have hplan : plan t now limit =
      ⟨(expire t start now limit).1, start, (expire t start now limit).2⟩ :=
    plan_of_attended h hstart
  rw [expire_of_late hpending hlate] at hplan
  have hchanged : (plan t now limit).changed = true := by rw [hplan]
  obtain ⟨s', hrun, hleft, -⟩ := run_of_stored now limit ht
  refine ⟨_, _, _, hrun, by rw [hplan]; rfl, hleft, by rw [status_left, hplan], ?_⟩
  rw [left_of_changed hchanged, hplan]
  rfl

theorem recheck_eq_none_iff (t : Task) (now : Instant) (limit : Span) :
    ((plan t now limit).report now limit).recheck = none ↔
      (plan t now limit).task.status.state.isFinal = true ∨ limit.isZero = true := by
  simp only [Plan.report, plan_start]
  cases hfinal : (plan t now limit).task.status.state.isFinal with
  | true => simp
  | false =>
    cases hzero : limit.isZero with
    | true => simp [Deadline.remaining_of_zero hzero]
    | false => simp [← Deadline.exceeded_iff_remaining_eq_none hzero, in_time_of_open hfinal]

theorem recheck_eq_some_iff {wait : Span} :
    ((plan t now limit).report now limit).recheck = some wait ↔
      (plan t now limit).task.status.state.isFinal = false ∧
        Deadline.remaining (startOf t now) now limit = some wait := by
  simp only [Plan.report, plan_start]
  cases (plan t now limit).task.status.state.isFinal with
  | true => simp
  | false => simp

/-- A pass that leaves a task open under a deadline says when to look again, no later than after the
whole of the limit. Until then a pass over the task changes nothing, and from then on it rejects the
task, unless the clock stood before the start. This is said of clocks that are in no leap second.
Time runs out exactly when none is left, whatever the clocks. -/
theorem recheck_meets_deadline {report : Report} (hrun : run key now limit s = (.ok report, s')) :
    (∃ t start, s'.get? key = some t ∧ t.status.startTime = some start ∧
      t.status.state = report.state ∧
      (report.recheck = none ↔ report.state.isFinal = true ∨ limit.isZero = true) ∧
      ∀ wait, report.recheck = some wait → wait.nanos ≤ limit.nanos ∧
        ∀ later s₂, now.inLeapSecond = false → start.inLeapSecond = false →
          later.inLeapSecond = false → s₂.get? key = some t →
          (later.totalNanos ≤ now.totalNanos + wait.nanos → StaysOpen key later limit s₂) ∧
          (start.totalNanos ≤ now.totalNanos → now.totalNanos + wait.nanos < later.totalNanos →
            TimesOut key later limit s₂)) ∧
    ∀ (start now : Instant) (limit : Span), limit.isZero = false →
      (Deadline.exceeded start now limit = true ↔ Deadline.remaining start now limit = none) := by
  refine ⟨?_, fun _ _ _ hlimit => Deadline.exceeded_iff_remaining_eq_none hlimit⟩
  obtain ⟨t, -, rfl, hleft, -⟩ := exists_of_run hrun
  have hattended := attended_left t now limit
  have hstart : (left t now limit).status.startTime = some (startOf t now) := by
    rw [status_left, startTime_plan]
  have hstate : (left t now limit).status.state = (plan t now limit).task.status.state := by
    rw [status_left]
  refine ⟨left t now limit, startOf t now, hleft, hstart, hstate, recheck_eq_none_iff t now limit,
    fun wait hwait => ?_⟩
  obtain ⟨hopen, hremaining⟩ := recheck_eq_some_iff.mp hwait
  have hpending : (left t now limit).status.state = .pending :=
    Outcome.eq_pending_iff.mpr (hstate ▸ hopen)
  refine ⟨Deadline.remaining_le hremaining, fun later s₂ hnow hbegin hlater hsame =>
    ⟨fun huntil => ?_, fun hbegun hpast => ?_⟩⟩
  · exact staysOpen_of_in_time hattended hsame hstart hpending
      (Deadline.in_time_of_remaining hnow hbegin hlater hremaining huntil)
  · exact timesOut_of_late hattended hsame hstart hpending
      (Deadline.late_of_remaining hnow hbegin hlater hremaining hbegun hpast)

/-- Some way into the hour that the sole user has. -/
def midway : Instant := Draft.epoch.plus (.make 1000 5)

theorem state_soleTask_midway :
    (plan Traffic.soleTask midway Deadline.default).task.status.state = .pending := by
  have hdigest : Traffic.soleTask.digest? = some (.ofApprovers Traffic.soleTask.spec.approvers) :=
    Task.digest?_withDigest ..
  rw [plan_status_of_digest rfl hdigest]
  rfl

/-- The pass midway leaves a wait to the end of the hour. At its end the task is in time, and a
nanosecond later it is not. -/
theorem wait_from_midway_meets_deadline :
    ∃ report s', run "gate" midway Deadline.default (Store.empty.put Traffic.soleTask) =
        (.ok report, s') ∧
      report.recheck = some ⟨2599999999995⟩ ∧
      StaysOpen "gate" (Draft.epoch.plus Deadline.default) Deadline.default s' ∧
      TimesOut "gate" ((Draft.epoch.plus Deadline.default).plus ⟨1⟩) Deadline.default s' := by
  have hstored : (Store.empty.put Traffic.soleTask).get? "gate" = some Traffic.soleTask := rfl
  obtain ⟨s', hrun, hleft, -⟩ := run_of_stored midway Deadline.default hstored
  have hwait : ((plan Traffic.soleTask midway Deadline.default).report midway
      Deadline.default).recheck = some ⟨2599999999995⟩ :=
    recheck_eq_some_iff.mpr ⟨by rw [state_soleTask_midway]; rfl, by decide⟩
  obtain ⟨⟨t, start, ht, hstart, -, -, hmeets⟩, -⟩ := recheck_meets_deadline hrun
  obtain rfl := Option.some.inj (hleft.symm.trans ht)
  have hepoch : start = Draft.epoch := by
    rw [status_left, startTime_plan] at hstart
    exact (Option.some.inj hstart).symm
  subst hepoch
  obtain ⟨-, hlater⟩ := hmeets _ hwait
  refine ⟨_, _, hrun, hwait, ?_, ?_⟩
  · exact (hlater _ _ (by decide) (by decide) (by decide) hleft).1 (by decide)
  · exact (hlater _ _ (by decide) (by decide) (by decide) hleft).2 (by decide) (by decide)

end Pass
end Quorum
