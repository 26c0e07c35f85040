import Quorum.Proofs.Justified
import Quorum.Proofs.Ending
import Quorum.Proofs.HexDigits
import Quorum.Proofs.Succession

/-!
# A final status is final

Edits keep the status that is stored, and passes write one that they made of the very status they
replace. So it is enough to see what a plan does to one status (`Pass.stands_plan`): a final one
only learns when its task started, and no start that is on record moves
(`Traffic.final_status_stays`).
-/
namespace Quorum

/-- `new` may come after `old`: a final status is as it was but for its start, and a start that was
on record is on record. -/
structure Status.Stands (old new : Status) : Prop where
  final : old.state.isFinal = true → new = { old with startTime := new.startTime }
  started : ∀ start, old.startTime = some start → new.startTime = some start

theorem Status.Stands.refl (s : Status) : s.Stands s := ⟨fun _ => rfl, fun _ h => h⟩

theorem Status.Stands.trans {s u v : Status} (hsu : s.Stands u) (huv : u.Stands v) :
    s.Stands v where
  final hfinal := by
    have hu : u = { s with startTime := u.startTime } := hsu.final hfinal
    have hstate : u.state = s.state := by rw [hu]
    have hv : v = { u with startTime := v.startTime } := huv.final (by rwa [hstate])
    rw [hv, hu]
  started start h := huv.started start (hsu.started start h)

namespace Pass
variable {t : Task} {start now : Instant} {limit : Span}

theorem startTime_count (t : Task) : (count t).1.status.startTime = t.status.startTime := by
  by_cases hdigest : t.digest? = some (.ofApprovers t.spec.approvers)
  · rw [count_of_digest hdigest]
  · rw [count_of_digest_ne hdigest]
    exact Spec.startTime_aggregate t.spec (some t.status)

theorem startTime_expire (t : Task) (start now : Instant) (limit : Span) :
    (expire t start now limit).1.status.startTime = t.status.startTime := by
  unfold expire
  split
  · rfl
  · rfl

theorem startTime_plan (t : Task) (now : Instant) (limit : Span) :
    (plan t now limit).task.status.startTime = some (startOf t now) := by
  rw [plan_task]
  by_cases hfinal : t.status.state.isFinal = true
  · rw [if_pos hfinal]
    rfl
  · rw [if_neg hfinal, startTime_expire, startTime_count]
    rfl

theorem plan_task_of_final (hfinal : t.status.state.isFinal = true) :
    (plan t now limit).task = withStart t now := by
  rw [plan_task, if_pos hfinal]

theorem plan_changed_of_final (hfinal : t.status.state.isFinal = true) :
    (plan t now limit).changed = t.status.startTime.isNone := by
  have hstarted : (withStart t now).status.state.isFinal = true := hfinal
  simp only [plan, hstarted, if_true]

theorem stands_plan (t : Task) (now : Instant) (limit : Span) :
    t.status.Stands (plan t now limit).task.status where
  final hfinal := by
    rw [plan_task_of_final hfinal]
    rfl
  started start hstart := by
    rw [startTime_plan, startOf, hstart]
    rfl

end Pass

namespace Store
variable {s s' : Store} {key : String} {t : Task}

/-- A task is created, or its metadata and specification are replaced, by anyone and unreviewed. -/
def SpecWrite (s s' : Store) : Prop :=
  ∃ incoming t, s.create incoming = .ok (t, s') ∨ s.update incoming = .ok (t, s')

theorem SpecWrite.advances (h : s.SpecWrite s') : s.Advances key s' := by
  obtain ⟨incoming, t, hcreate | hupdate⟩ := h
  · exact .create hcreate
  · exact .update hupdate

/-- The status of each task that is stored in `s` stands in `s'`. -/
def StatusesStand (s s' : Store) : Prop :=
  ∀ key t, s.get? key = some t → ∃ t', s'.get? key = some t' ∧ t.status.Stands t'.status

theorem StatusesStand.refl (s : Store) : s.StatusesStand s := fun _ t ht => ⟨t, ht, .refl _⟩

theorem StatusesStand.trans {s₁ s₂ s₃ : Store} (h₁ : s₁.StatusesStand s₂)
    (h₂ : s₂.StatusesStand s₃) : s₁.StatusesStand s₃ := by
  intro key t ht
  obtain ⟨t', ht', hstands⟩ := h₁ key t ht
  obtain ⟨t'', ht'', hstands'⟩ := h₂ key t' ht'
  exact ⟨t'', ht'', hstands.trans hstands'⟩

theorem StatusesStand.put {cur : Task} (hcur : s.get? t.key = some cur)
    (hstands : cur.status.Stands t.status) : s.StatusesStand (s.put t) := by
  intro key u hu
  rw [get?_put]
  by_cases hkey : key = t.key
  · subst hkey
    obtain rfl : cur = u := Option.some.inj (hcur.symm.trans hu)
    exact ⟨t, if_pos rfl, hstands⟩
  · exact ⟨u, by rw [if_neg hkey, hu], .refl _⟩

theorem SpecWrite.statusesStand (h : s.SpecWrite s') : s.StatusesStand s' := by
  obtain ⟨incoming, t, hcreate | hupdate⟩ := h
  · obtain ⟨hnone, rfl, rfl⟩ := create_eq_ok_iff.mp hcreate
    intro key u hu
    have hkey : key ≠ incoming.key := by
      rintro rfl
      rw [hnone] at hu
      cases hu
    refine ⟨u, ?_, .refl _⟩
    rw [get?_put]
    exact (if_neg hkey).trans hu
  · obtain ⟨cur, hcur, -, rfl, rfl⟩ := update_eq_ok_iff.mp hupdate
    exact .put hcur (.refl _)

end Store

theorem Job.Lands.statusesStand {j : Job} {s s' : Store} (h : j.Lands s s') :
    s.StatusesStand s' := by
  cases j with
  | vote b retries =>
    obtain ⟨t, cur, spec, hcur, -, -, rfl, rfl⟩ := h
    have hkey : cur.key = b.key := Store.key_of_get? hcur
    have hstored : s.get? cur.key = some cur := by rw [hkey, hcur]
    exact .put hstored (.refl _)
  | pass key now limit =>
    obtain ⟨t, cur, hcur, -, rfl, rfl⟩ := h
    have hkey : cur.key = key := Store.key_of_get? hcur
    have hstored : s.get? cur.key = some cur := by rw [hkey, hcur]
    exact .put hstored (Pass.stands_plan cur now limit)

/-- A pass over a task whose status is final has only its start to fill in. -/
theorem Pass.Lands.of_final {key : String} {now : Instant} {limit : Span} {s s' : Store}
    {t cur : Task} (h : Pass.Lands key now limit s s' t) (hcur : s.get? key = some cur)
    (hfinal : cur.status.state.isFinal = true) (hroom : s.HasRoom key) :
    cur.status.startTime = none ∧ s'.get? key = some
      { cur with
        status.startTime := some (startOf cur now)
        metadata.version := cur.metadata.version + 1 } := by
  obtain ⟨cur', hcur', hchanged, rfl, rfl⟩ := h
  obtain rfl : cur' = cur := Option.some.inj (hcur'.symm.trans hcur)
  rw [plan_changed_of_final hfinal, Option.isNone_iff_eq_none] at hchanged
  have hversion : Store.nextVersion cur'.metadata.version = cur'.metadata.version + 1 := by
    have hbelow := hroom cur' hcur
    unfold Store.nextVersion
    omega
  refine ⟨hchanged, ?_⟩
  rw [Store.get?_put, Store.key_reported, Store.key_of_get? hcur, if_pos rfl,
    plan_task_of_final hfinal, Store.reported, hversion]
  rfl

namespace Traffic
variable {jobs : Job → Prop} {others : Store → Store → Prop} {w w' : Traffic} {s : Store}

/-- A step leaves the store alone, does what a job is for, or is a write of somebody else. -/
theorem Run.store_cases (hrun : Run jobs others (start s) w)
    (hadvances : ∀ key s s', others s s' → s.Advances key s')
    (hroom : ∀ key, w.store.HasRoom key) (hstep : Step jobs others w w') :
    w'.store = w.store ∨ (∃ j, jobs j ∧ j.Lands w.store w'.store) ∨ others w.store w'.store := by
  cases hstep with
  | arrive j hj => exact .inl rfl
  | write s' hwrite => exact .inr (.inr hwrite)
  | act i c hc =>
    obtain ⟨hjob, hstaged⟩ := hrun.staged (fun j _ => hadvances j.key) c (List.mem_of_getElem? hc)
    rcases hstaged.lands (hroom c.job.key) with hsame | hlands
    · exact .inl hsame
    · exact .inr (.inl ⟨c.job, hjob, hlands⟩)

/-- Versions that have not run out at the end of a run had not at its start. -/
theorem Run.hasRoom_before {key : String} (h : Run jobs others w w')
    (hadvances : ∀ s s', others s s' → s.Advances key s') (hroom : w'.store.HasRoom key) :
    w.store.HasRoom key := by
  induction h with
  | refl => exact hroom
  | tail _ hstep ih => exact ih (hroom.of_advances (hstep.advances hadvances))

theorem Run.statusesStand (hbefore : Run jobs Store.SpecWrite (start s) w)
    (hafter : Run jobs Store.SpecWrite w w') (hroom : ∀ key, w'.store.HasRoom key) :
    w.store.StatusesStand w'.store := by
  have hadvances (key : String) (s s' : Store) (h : s.SpecWrite s') : s.Advances key s' :=
    h.advances
  induction hafter with
  | refl => exact .refl _
  | @tail w₁ w₂ hrun hstep ih =>
    have hroom₁ (key : String) : w₁.store.HasRoom key :=
      (hroom key).of_advances (hstep.advances (hadvances key))
    refine (ih hroom₁).trans ?_
    have hreached : Run jobs Store.SpecWrite (start s) w₁ := hbefore.trans hrun
    rcases hreached.store_cases hadvances hroom₁ hstep with
      hsame | ⟨j, -, hlands⟩ | hwrite
    · rw [hsame]
      exact .refl _
    · exact hlands.statusesStand
    · exact hwrite.statusesStand

/-- Whoever votes, edits or reconciles, and in whatever order: once the status of a task is final,
nothing of it but a missing start is ever written again, and once a start is on record it never
moves. A pass that wrote to a task with a final status wrote just that start. -/
theorem final_status_stays {key : String} {t : Task}
    (hbefore : Run (fun _ => True) Store.SpecWrite (start s) w)
    (hafter : Run (fun _ => True) Store.SpecWrite w w') (hroom : ∀ key, w'.store.HasRoom key)
    (ht : w.store.get? key = some t) :
    (∃ t', w'.store.get? key = some t' ∧
      (t.status.state.isFinal = true →
        t'.status.state = t.status.state ∧ t'.status.responses = t.status.responses ∧
        t'.status.approvers = t.status.approvers ∧ t'.status.received = t.status.received ∧
        t'.status.required = t.status.required ∧ t'.status.reason = t.status.reason) ∧
      (∀ start, t.status.startTime = some start → t'.status.startTime = some start)) ∧
    (∀ now limit call landed, ⟨.pass key now limit, call, landed⟩ ∈ w'.clients →
      ∀ before after cur, (before, after) ∈ landed → before.get? key = some cur →
        cur.status.state.isFinal = true → cur.status.startTime = none ∧
        ∃ start, after.get? key = some
          { cur with
            status.startTime := some start
            metadata.version := cur.metadata.version + 1 }) := by
  have hrun : Run (fun _ => True) Store.SpecWrite (start s) w' := hbefore.trans hafter
  refine ⟨?_, fun now limit call landed hclient before after cur hlanded hcur hfinal => ?_⟩
  · obtain ⟨t', ht', hstands⟩ := hbefore.statusesStand hafter hroom key t ht
    refine ⟨t', ht', fun hfinal => ?_, hstands.started⟩
    rw [hstands.final hfinal]
    exact ⟨rfl, rfl, rfl, rfl, rfl, rfl⟩
  · obtain ⟨w₁, w₂, hrun₁, hstep, hrun₂, rfl, rfl⟩ := hrun.landed hclient hlanded
    have hrest : Run (fun _ => True) Store.SpecWrite w₁ w' := hrun₂.head hstep
    have hroom₁ : w₁.store.HasRoom key := hrest.hasRoom_before (fun _ _ h => h.advances) (hroom key)
    have hstage : Pass.Stage key now limit w'.store call landed :=
      (hrun.staged (fun _ _ _ _ h => h.advances) _ hclient).2 (hroom key)
    cases hstage with
    | landed report hlands =>
      obtain ⟨rfl, rfl⟩ := Prod.mk.inj (List.mem_singleton.mp hlanded)
      obtain ⟨hnone, hafter⟩ := hlands.of_final hcur hfinal hroom₁
      exact ⟨hnone, _, hafter⟩
    | _ => cases hlanded

/-- Two hours after the first second of 2026. -/
def late : Instant := Draft.epoch.plus (.ofSeconds 7200)

theorem plan_soleTask_late :
    (Pass.plan soleTask late Deadline.default).task.status.state = .rejected := by
  have hdigest : soleTask.digest? = some (.ofApprovers soleTask.spec.approvers) :=
    Task.digest?_withDigest ..
  rw [Pass.plan_status_of_digest rfl hdigest]
  rfl

/-- The approval came without a digest, so a pass counts it. -/
theorem plan_bareApproval :
    (Pass.plan (Store.edited soleTask bareApproval) Draft.epoch .zero).task.status.state =
      .approved := by
  let edited := Pass.withStart (Store.edited soleTask bareApproval) Draft.epoch
  have hnone : edited.digest? = none := rfl
  have hdigest : edited.digest? ≠ some (.ofApprovers edited.spec.approvers) := by simp [hnone]
  rw [Pass.plan_task, if_neg (by decide), Pass.count_of_digest_ne hdigest]
  rfl

/-- A pass has read the task past its time, when its only user approves and a second pass counts the
approval. The first pass still has a rejection to write, and it does not get through. -/
theorem late_pass_leaves_approval :
    ∃ w w' t', Run (fun _ => True) Store.SpecWrite (start (Store.empty.put soleTask)) w ∧
      Run (fun _ => True) Store.SpecWrite w w' ∧
      (Pass.plan soleTask late Deadline.default).task.status.state = .rejected ∧
      ⟨.pass "gate" late Deadline.default,
        .write (.status (Pass.plan soleTask late Deadline.default).task)
          (Pass.settle (Pass.plan soleTask late Deadline.default) late Deadline.default), []⟩ ∈
        w.clients ∧
      w'.store.get? "gate" = some t' ∧ t'.status.state = .approved ∧
      t'.status.startTime = some Draft.epoch := by
  let edited := Store.edited soleTask bareApproval
  let t := Store.reported edited (Pass.plan edited Draft.epoch .zero).task
  let s₁ := Store.empty.put soleTask
  let s₂ := s₁.put edited
  let s₃ := s₂.put t
  let stale : Client := ⟨.pass "gate" late Deadline.default,
    .write (.status (Pass.plan soleTask late Deadline.default).task)
      (Pass.settle (Pass.plan soleTask late Deadline.default) late Deadline.default), []⟩
  have hfirst : s₁.get? "gate" = some soleTask :=
    (Store.get?_put Store.empty soleTask "gate").trans (if_pos rfl)
  have hedited : s₂.get? "gate" = some edited :=
    (Store.get?_put s₁ edited "gate").trans (if_pos rfl)
  have hcounted : s₃.get? "gate" = some t :=
    (Store.get?_put s₂ t "gate").trans (if_pos rfl)
  have hversion : t.metadata.version = 3 := Store.version_reported
  have happroved : t.status.state = .approved := plan_bareApproval
  have hchanged : (Pass.plan soleTask late Deadline.default).changed = true :=
    Pass.changed_of_unstarted rfl
  have hread : Run (fun _ => True) Store.SpecWrite (start s₁) ⟨s₁, [stale]⟩ :=
    (RunThrough.pass_reads_alone (w := start s₁) Store.SpecWrite trivial hfirst hchanged).run
  have hedit : Run (fun _ => True) Store.SpecWrite ⟨s₁, [stale]⟩ ⟨s₂, [stale]⟩ :=
    .single (.write ⟨s₁, [stale]⟩ s₂ ⟨bareApproval, edited, .inr rfl⟩)
  have hpass : Pass.run "gate" Draft.epoch .zero s₂ =
      (.ok ((Pass.plan edited Draft.epoch .zero).report Draft.epoch .zero), s₃) :=
    Pass.run_of_changed hedited (Pass.changed_of_unstarted rfl)
  obtain ⟨counting, hcount⟩ :
      ∃ c, Run (fun _ => True) Store.SpecWrite ⟨s₂, [stale]⟩ ⟨s₃, [stale] ++ [c]⟩ :=
    Run.pass_alone trivial hpass
  have hrefused : (stale.step s₃).2 = s₃ := by
    have hkeeps := Pass.keeps_plan soleTask late Deadline.default
    have hcur : s₃.get? (Pass.plan soleTask late Deadline.default).task.key = some t := by
      rw [hkeeps.key_eq]
      exact hcounted
    have hne : (Pass.plan soleTask late Deadline.default).task.metadata.version ≠
        t.metadata.version := by
      rw [hkeeps.version_eq, hversion]
      decide
    exact Client.store_step_of_error rfl (Store.updateStatus_of_version_ne hcur hne)
  have hwrite : Run (fun _ => True) Store.SpecWrite ⟨s₃, [stale] ++ [counting]⟩
      ⟨(stale.step s₃).2, ([stale] ++ [counting]).set 0 (stale.step s₃).1⟩ :=
    .single (.act _ 0 stale rfl)
  have hroom (key : String) : (stale.step s₃).2.HasRoom key := by
    have hthree : t.metadata.version < Bounds.nat64Max := by
      rw [hversion]
      decide
    rw [hrefused]
    exact (((Store.hasRoom_empty key).put (by decide)).put (by decide)).put hthree
  have hbefore := (hread.trans hedit).trans hcount
  obtain ⟨⟨t', ht', hfinal, hstarted⟩, -⟩ := final_status_stays hbefore hwrite hroom hcounted
  have hstart : t.status.startTime = some Draft.epoch := Pass.startTime_plan ..
  refine ⟨_, _, t', hbefore, hwrite, plan_soleTask_late, List.mem_cons_self, ht', ?_,
    hstarted _ hstart⟩
  exact (hfinal (by rw [happroved]; rfl)).1.trans happroved

end Traffic
end Quorum
