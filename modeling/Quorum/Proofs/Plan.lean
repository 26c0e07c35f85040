import Quorum.Pass

/-!
# What a pass keeps

A pass plans a new status and a new digest. All else of the task is as the pass found it, step by
step (`Pass.Keeps`). How a pass counts is a parameter of what it plans (`Pass.planBy`), so that
passes that count in other ways can be set beside it.
-/
namespace Quorum.Pass
variable {t u v : Task} {start now : Instant} {limit : Span}

/-- `u` is `t` but for the status and the annotations. -/
def Keeps (t u : Task) : Prop :=
  ∃ status annotations, u = { t with status, metadata.annotations := annotations }

theorem Keeps.refl (t : Task) : Keeps t t := ⟨t.status, t.metadata.annotations, rfl⟩

/-- The steps of a pass are put together by this, each of them leaving alone what the next one
reads. -/
theorem Keeps.trans (htu : Keeps t u) (huv : Keeps u v) : Keeps t v := by
  obtain ⟨_, _, rfl⟩ := htu
  obtain ⟨status, annotations, rfl⟩ := huv
  exact ⟨status, annotations, rfl⟩

theorem Keeps.spec_eq (h : Keeps t u) : u.spec = t.spec := by
  obtain ⟨_, _, rfl⟩ := h
  rfl

theorem Keeps.key_eq (h : Keeps t u) : u.key = t.key := by
  obtain ⟨_, _, rfl⟩ := h
  rfl

theorem Keeps.name_eq (h : Keeps t u) : u.metadata.name = t.metadata.name := by
  obtain ⟨_, _, rfl⟩ := h
  rfl

theorem Keeps.version_eq (h : Keeps t u) : u.metadata.version = t.metadata.version := by
  obtain ⟨_, _, rfl⟩ := h
  rfl

theorem keeps_withStart (t : Task) (now : Instant) : Keeps t (withStart t now) :=
  ⟨_, t.metadata.annotations, rfl⟩

theorem keeps_count (t : Task) : Keeps t (count t).1 := by
  unfold count
  by_cases hdigest : t.digest? = some (Digest.ofApprovers t.spec.approvers)
  · rw [if_pos hdigest]
    exact .refl t
  · rw [if_neg hdigest]
    exact ⟨_, _, rfl⟩

theorem keeps_expire (t : Task) : Keeps t (expire t start now limit).1 := by
  unfold expire
  split
  · exact ⟨_, t.metadata.annotations, rfl⟩
  · exact .refl t

/-- The task as a pass would leave it that counts by `c`, which says whether it has counted. -/
def planBy (c : Task → Task × Bool) (t : Task) (now : Instant) (limit : Span) : Plan :=
  let start := startOf t now
  let started := t.status.startTime.isNone
  let t := withStart t now
  if t.status.state.isFinal then ⟨t, start, started⟩
  else
    let (t, counted) := c t
    let (t, expired) := expire t start now limit
    ⟨t, start, started || counted || expired⟩

theorem plan_eq_planBy (t : Task) (now : Instant) (limit : Span) :
    plan t now limit = planBy count t now limit := rfl

variable {c : Task → Task × Bool}

/-- A final status only learns when the task started. Any other is counted, and then rejected if it
is late. -/
theorem planBy_task (c : Task → Task × Bool) (t : Task) (now : Instant) (limit : Span) :
    (planBy c t now limit).task =
      if t.status.state.isFinal then withStart t now
      else (expire (c (withStart t now)).1 (startOf t now) now limit).1 := by
  unfold planBy
  cases hfinal : t.status.state.isFinal with
  | true => simp [withStart, hfinal]
  | false => simp [withStart, hfinal]

/-- What a pass makes of a task, without the bookkeeping of whether anything has changed. -/
theorem plan_task (t : Task) (now : Instant) (limit : Span) :
    (plan t now limit).task =
      if t.status.state.isFinal then withStart t now
      else (expire (count (withStart t now)).1 (startOf t now) now limit).1 := by
  rw [plan_eq_planBy, planBy_task]

/-- Whatever counts the votes, a pass that leaves the rest to `count` and `expire` keeps the
specification, the key and the version. -/
theorem keeps_planBy (hc : ∀ u, Keeps u (c u).1) (t : Task) (now : Instant) (limit : Span) :
    Keeps t (planBy c t now limit).task := by
  rw [planBy_task]
  by_cases hfinal : t.status.state.isFinal = true
  · rw [if_pos hfinal]
    exact keeps_withStart t now
  · rw [if_neg hfinal]
    exact ((keeps_withStart t now).trans (hc _)).trans (keeps_expire _)

/-- A pass changes nothing of a task but its status and its annotations, so that a status write is
enough to store what it has planned. -/
theorem keeps_plan (t : Task) (now : Instant) (limit : Span) : Keeps t (plan t now limit).task :=
  keeps_planBy keeps_count t now limit

end Quorum.Pass
