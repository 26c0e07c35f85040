import Quorum.Proofs.Stage

/-!
# How a pass ends

A pass ends with a report at the read that shows it nothing to do, or at its write. Either way the
task that is stored then has the status that the pass plans for the task that was stored before
(`Traffic.PassEnds.planned`). What every job and everybody else keeps is kept by a run
(`Traffic.RunThrough.preserves`).
-/
namespace Quorum

namespace Store
variable {P : Task → Prop} {s s' : Store} {incoming t : Task} {key : String}

/-- The task at `key`, if there is one, satisfies `P`. -/
def Holds (key : String) (P : Task → Prop) (s : Store) : Prop := ∀ t, s.get? key = some t → P t

theorem Holds.of_get? (hstored : s.get? key = some t) (ht : P t) : s.Holds key P := by
  intro u hu
  rwa [← Option.some.inj (hstored.symm.trans hu)]

theorem Holds.of_get?_eq (h : s.Holds key P) (hsame : s'.get? key = s.get? key) :
    s'.Holds key P := fun t ht => h t (hsame ▸ ht)

theorem Holds.put (h : s.Holds key P) (ht : key = t.key → P t) : (s.put t).Holds key P := by
  intro u hu
  rw [get?_put] at hu
  by_cases hkey : key = t.key
  · rw [if_pos hkey] at hu
    cases hu
    exact ht hkey
  · rw [if_neg hkey] at hu
    exact h u hu

theorem get?_of_create (h : s.create incoming = .ok (t, s')) :
    s'.get? incoming.key = some t := by
  obtain ⟨-, rfl, rfl⟩ := create_eq_ok_iff.mp h
  rw [get?_put]
  exact if_pos rfl

end Store

namespace Pass
variable {t : Task} {start now : Instant} {limit : Span}

/-- Whoever is the first to see a task has its start to write. -/
theorem changed_of_unstarted (h : t.status.startTime = none) :
    (plan t now limit).changed = true := by
  unfold plan
  by_cases hfinal : (withStart t now).status.state.isFinal = true
  · simp [hfinal, h]
  · simp [hfinal, h]

theorem withStart_of_started (h : t.status.startTime.isNone = false) : withStart t now = t := by
  obtain ⟨m, spec, state, approvers, responses, required, received, startTime, reason⟩ := t
  cases startTime with
  | none => cases h
  | some start => rfl

theorem count_of_digest (h : t.digest? = some (.ofApprovers t.spec.approvers)) :
    count t = (t, false) := by
  simp only [count, if_pos h]

theorem count_of_digest_ne (h : t.digest? ≠ some (.ofApprovers t.spec.approvers)) :
    count t = ({ t with status := t.spec.aggregate (some t.status) }.withDigest
      (.ofApprovers t.spec.approvers), true) := by
  simp only [count, if_neg h]

/-- An open task that has the digest of its approvers on record is not counted again. -/
theorem plan_status_of_digest (hopen : t.status.state.isFinal = false)
    (hdigest : t.digest? = some (.ofApprovers t.spec.approvers)) :
    (plan t now limit).task.status =
      (expire (withStart t now) (startOf t now) now limit).1.status := by
  have hstarted : (withStart t now).digest? =
      some (.ofApprovers (withStart t now).spec.approvers) := hdigest
  rw [plan_task, if_neg (by simp [hopen]), count_of_digest hstarted]

/-- Such a task, if it has its start, is written only to reject it for its time. -/
theorem changed_of_digest (hopen : t.status.state.isFinal = false)
    (hstarted : t.status.startTime.isNone = false)
    (hdigest : t.digest? = some (.ofApprovers t.spec.approvers)) :
    (plan t now limit).changed = (expire (withStart t now) (startOf t now) now limit).2 := by
  have hcount : count (withStart t now) = (withStart t now, false) := count_of_digest hdigest
  have hunfinished : (withStart t now).status.state.isFinal = false := hopen
  simp only [plan, hunfinished, hcount, hstarted, Bool.false_eq_true, if_false, Bool.false_or]

theorem count_of_unchanged (h : (count t).2 = false) : (count t).1 = t := by
  by_cases hdigest : t.digest? = some (.ofApprovers t.spec.approvers)
  · rw [count_of_digest hdigest]
  · rw [count_of_digest_ne hdigest] at h
    cases h

theorem expire_of_unchanged (h : (expire t start now limit).2 = false) :
    (expire t start now limit).1 = t := by
  unfold expire at h ⊢
  split at h
  · cases h
  · next hlate => rw [if_neg hlate]

/-- A pass that changes nothing plans the task as it is. -/
theorem plan_task_of_unchanged (h : (plan t now limit).changed = false) :
    (plan t now limit).task = t := by
  unfold plan at h ⊢
  by_cases hfinal : (withStart t now).status.state.isFinal = true
  · simp only [hfinal, if_true] at h ⊢
    exact withStart_of_started h
  · simp only [hfinal, Bool.false_eq_true, if_false, Bool.or_eq_false_iff] at h ⊢
    rw [expire_of_unchanged h.2, count_of_unchanged h.1.2, withStart_of_started h.1.1]

theorem offer_of_changed {key : String} {s : Store} (ht : s.get? key = some t)
    (hchanged : (plan t now limit).changed = true) :
    offer key now limit s =
      .write (.status (plan t now limit).task) (settle (plan t now limit) now limit) := by
  unfold offer
  rw [Store.get_eq_ok_iff.mpr ht]
  simp only [if_pos hchanged]

theorem offer_of_unchanged {key : String} {s : Store} (ht : s.get? key = some t)
    (hunchanged : (plan t now limit).changed = false) :
    offer key now limit s = .done (.ok ((plan t now limit).report now limit)) := by
  unfold offer
  rw [Store.get_eq_ok_iff.mpr ht]
  simp only [hunchanged, Bool.false_eq_true, if_false]

/-- A pass that ends with its read has found nothing to do. -/
theorem unchanged_of_offer {key : String} {s : Store} {report : Report}
    (h : offer key now limit s = .done (.ok report)) :
    ∃ t, s.get? key = some t ∧ (plan t now limit).changed = false := by
  unfold offer at h
  cases hget : s.get key with
  | error e =>
    rw [hget] at h
    cases h
  | ok t =>
    refine ⟨t, Store.get_eq_ok_iff.mp hget, ?_⟩
    rw [← Bool.not_eq_true]
    intro hchanged
    simp only [hget, if_pos hchanged] at h
    cases h

end Pass

namespace Traffic
variable {jobs : Job → Prop} {others : Store → Store → Prop} {w w' : Traffic} {s : Store}
  {key : String} {now : Instant} {limit : Span} {report : Pass.Report}

/-- A run in which every store that comes about satisfies `Q`. -/
abbrev RunThrough (Q : Store → Prop) (jobs : Job → Prop) (others : Store → Store → Prop) :
    Traffic → Traffic → Prop :=
  Relation.ReflTransGen fun w w' => Step jobs others w w' ∧ Q w'.store

theorem RunThrough.run {Q : Store → Prop} (h : RunThrough Q jobs others w w') :
    Run jobs others w w' := Relation.ReflTransGen.mono (fun _ _ => And.left) _ _ h

theorem RunThrough.weaken {Q Q' : Store → Prop} (h : RunThrough Q jobs others w w')
    (hQ : ∀ s, Q s → Q' s) : RunThrough Q' jobs others w w' :=
  Relation.ReflTransGen.mono (fun _ _ hstep => ⟨hstep.1, hQ _ hstep.2⟩) _ _ h

/-- What the jobs and all others keep holds throughout a run. -/
theorem RunThrough.preserves {P Q : Store → Prop} (h : RunThrough Q jobs others (start s) w)
    (hkey : ∀ j, jobs j → j.key = key) (hroom : w.store.HasRoom key)
    (hadvances : ∀ s s', others s s' → s.Advances key s')
    (hjobs : ∀ j s s', jobs j → j.Lands s s' → Q s' → P s → P s')
    (hothers : ∀ s s', others s s' → P s → P s') (hs : P s) : P w.store := by
  induction h with
  | refl => exact hs
  | @tail w₁ w₂ hrun hlast ih =>
    obtain ⟨hstep, hthrough⟩ := hlast
    have hbefore : w₁.store.HasRoom key := hroom.of_advances (hstep.advances hadvances)
    have hw₁ := ih hbefore
    cases hstep with
    | arrive j hj => exact hw₁
    | write s' hwrite => exact hothers _ _ hwrite hw₁
    | act i c hc =>
      obtain ⟨hjob, hstaged⟩ := Run.staged (RunThrough.run hrun)
        (fun j hj s s' hwrite => hkey j hj ▸ hadvances s s' hwrite) c (List.mem_of_getElem? hc)
      rcases hstaged.lands (hkey _ hjob ▸ hbefore) with hsame | hlands
      · exact hsame.symm ▸ hw₁
      · exact hjobs _ _ _ hjob hlands hthrough hw₁

theorem Run.preserves {P : Store → Prop} (h : Run jobs others (start s) w)
    (hkey : ∀ j, jobs j → j.key = key) (hroom : w.store.HasRoom key)
    (hadvances : ∀ s s', others s s' → s.Advances key s')
    (hjobs : ∀ j s s', jobs j → j.Lands s s' → P s → P s')
    (hothers : ∀ s s', others s s' → P s → P s') (hs : P s) : P w.store := by
  have hthrough : RunThrough (fun _ => True) jobs others (start s) w :=
    Relation.ReflTransGen.mono (fun _ _ hstep => ⟨hstep, trivial⟩) _ _ h
  exact hthrough.preserves hkey hroom hadvances
    (fun j s s' hj hlands _ => hjobs j s s' hj hlands) hothers hs

/-- The step from `w` to `w'` is the last one of a pass over the task at `key`, which ends with a
report. -/
def PassEnds (key : String) (now : Instant) (limit : Span) (report : Pass.Report)
    (w w' : Traffic) : Prop :=
  ∃ (i : Nat) (call : Call (Except StoreError Pass.Report)) (landed : List (Store × Store)),
    w.clients[i]? = some ⟨.pass key now limit, call, landed⟩ ∧ (∀ a, call ≠ .done a) ∧
    (call.step w.store).1 = .done (.ok report) ∧
    w' = (let c : Client := ⟨.pass key now limit, call, landed⟩
      ⟨(c.step w.store).2, w.clients.set i (c.step w.store).1⟩)

theorem PassEnds.step (h : PassEnds key now limit report w w') : Step jobs others w w' := by
  obtain ⟨i, call, landed, hclient, -, -, rfl⟩ := h
  exact .act w i _ hclient

/-- The pass leaves the status that it plans for the task that it finds. -/
theorem PassEnds.planned (h : PassEnds key now limit report w w')
    (hrun : Run jobs others (start s) w)
    (hadvances : ∀ j, jobs j → ∀ s s', others s s' → s.Advances j.key s')
    (hroom : w.store.HasRoom key) :
    ∃ t t', w.store.get? key = some t ∧ w'.store.get? key = some t' ∧ t'.spec = t.spec ∧
      t'.metadata.name = t.metadata.name ∧ t'.status = (Pass.plan t now limit).task.status := by
  obtain ⟨i, call, landed, hclient, hongoing, hends, rfl⟩ := h
  have hstage : Pass.Stage key now limit w.store call landed :=
    (hrun.staged hadvances _ (List.mem_of_getElem? hclient)).2 hroom
  cases hstage with
  | reading =>
    obtain ⟨t, ht, hunchanged⟩ := Pass.unchanged_of_offer hends
    refine ⟨t, t, ht, ht, rfl, rfl, ?_⟩
    rw [Pass.plan_task_of_unchanged hunchanged]
  | @writing read hkey hread hchanged =>
    simp only [Client.step, Call.step, Submission.run] at hends ⊢
    cases hwrite : w.store.updateStatus (Pass.plan read now limit).task with
    | error e =>
      rw [hwrite] at hends
      cases hends
    | ok written =>
      obtain ⟨t, ht, -, hreported, hput⟩ :=
        Pass.lands_of_updateStatus hkey hread hchanged hroom hwrite
      refine ⟨t, written.1, ht, ?_, ?_, ?_, ?_⟩
      · simp only [Option.getD_some, hput, Store.get?_put]
        rw [if_pos]
        rw [hreported, Store.key_reported, Store.key_of_get? ht]
      · rw [hreported]
        rfl
      · rw [hreported]
        rfl
      · rw [hreported]
        rfl
  | idle a => exact absurd rfl (hongoing a)
  | landed r hlands => exact absurd rfl (hongoing _)

/-- A client that starts with a read makes it. -/
theorem RunThrough.read_alone (others : Store → Store → Prop) {j : Job}
    {next : Store → Call j.Result} (hj : jobs j) (hcall : j.call = .read next) :
    RunThrough (· = w.store) jobs others w
      ⟨w.store, w.clients ++ [⟨j, next w.store, []⟩]⟩ := by
  have hread : Step jobs others ⟨w.store, w.clients ++ [.start j]⟩
      ⟨w.store, w.clients ++ [⟨j, next w.store, []⟩]⟩ := by
    refine .of_act (c := .start j) w.clients.length (by simp) ?_ ?_
    · simp [Client.step, Client.start, hcall, Call.step]
    · simp [Client.step, Client.start, hcall, Call.step]
  exact .head ⟨.arrive w j hj, rfl⟩ (.single ⟨hread, rfl⟩)

/-- A pass that has anything to write starts by reading it. -/
theorem RunThrough.pass_reads_alone (others : Store → Store → Prop) {t : Task}
    (hj : jobs (.pass key now limit)) (ht : w.store.get? key = some t)
    (hchanged : (Pass.plan t now limit).changed = true) :
    RunThrough (· = w.store) jobs others w
      ⟨w.store, w.clients ++ [⟨.pass key now limit, .write (.status (Pass.plan t now limit).task)
        (Pass.settle (Pass.plan t now limit) now limit), []⟩]⟩ := by
  have hread := RunThrough.read_alone (w := w) others hj (Pass.call_eq key now limit)
  rwa [Pass.offer_of_changed ht hchanged] at hread

/-- A pass that nobody disturbs ends with its write, if it has anything to write. -/
theorem RunThrough.pass_ends_alone (others : Store → Store → Prop) {t : Task}
    (hj : jobs (.pass key now limit)) (ht : w.store.get? key = some t)
    (hchanged : (Pass.plan t now limit).changed = true) :
    ∃ w₁ w₂ report, RunThrough (· = w.store) jobs others w w₁ ∧ w₁.store = w.store ∧
      PassEnds key now limit report w₁ w₂ ∧
      w₂.store = w.store.put (Store.reported t (Pass.plan t now limit).task) := by
  let p := Pass.plan t now limit
  let writing : Client :=
    ⟨.pass key now limit, .write (.status p.task) (Pass.settle p now limit), []⟩
  have hread := RunThrough.pass_reads_alone others hj ht hchanged
  have hwrite : Call.step (.write (.status p.task) (Pass.settle p now limit)) w.store =
      (.done (.ok (p.report now limit)), some (w.store.put (Store.reported t p.task))) := by
    simp only [Call.step, Submission.run, p, Pass.updateStatus_plan ht]
    rfl
  have hends : PassEnds key now limit (p.report now limit)
      ⟨w.store, w.clients ++ [writing]⟩ ⟨(writing.step w.store).2,
        (w.clients ++ [writing]).set w.clients.length (writing.step w.store).1⟩ := by
    refine ⟨w.clients.length, _, [], by simp [writing], fun a h => ?_, ?_, rfl⟩
    · cases h
    · rw [hwrite]
  refine ⟨_, _, _, hread, rfl, hends, ?_⟩
  simp only [writing, Client.step, hwrite, Option.getD_some, p]

/-- A pass that finds nothing to do ends with its read. -/
theorem RunThrough.pass_idles_alone (others : Store → Store → Prop) {t : Task}
    (hj : jobs (.pass key now limit)) (ht : w.store.get? key = some t)
    (hunchanged : (Pass.plan t now limit).changed = false) :
    ∃ w₁ w₂ report, RunThrough (· = w.store) jobs others w w₁ ∧ w₁.store = w.store ∧
      PassEnds key now limit report w₁ w₂ ∧ w₂.store = w.store := by
  let reading : Client := .start (.pass key now limit)
  have harrives : Step jobs others w ⟨w.store, w.clients ++ [reading]⟩ :=
    .arrive w (.pass key now limit) hj
  have hstep : reading.call.step w.store =
      (.done (.ok ((Pass.plan t now limit).report now limit)), none) := by
    change Call.step (Pass.call key now limit) w.store = _
    rw [Pass.call_eq, Call.step, Pass.offer_of_unchanged ht hunchanged]
    rfl
  have hends : PassEnds key now limit ((Pass.plan t now limit).report now limit)
      ⟨w.store, w.clients ++ [reading]⟩ ⟨(reading.step w.store).2,
        (w.clients ++ [reading]).set w.clients.length (reading.step w.store).1⟩ := by
    have hreading : (w.clients ++ [reading])[w.clients.length]? = some reading := by simp
    have hongoing (a : Except StoreError Pass.Report) : Pass.call key now limit ≠ .done a := by
      rw [Pass.call_eq]
      intro h
      cases h
    exact ⟨w.clients.length, _, [], hreading, hongoing, congrArg Prod.fst hstep, rfl⟩
  refine ⟨_, _, _, .single ⟨harrives, rfl⟩, rfl, hends, ?_⟩
  simp only [Client.step, hstep, Option.getD_none]

/-- A vote that nobody disturbs writes what it proposes. -/
theorem RunThrough.vote_alone (others : Store → Store → Prop) {b : Ballot} {retries : Nat}
    {t proposed : Task} (hj : jobs (.vote b retries)) (ht : w.store.get? b.key = some t)
    (h : b.Proposes t proposed) :
    ∃ w₁, RunThrough (fun s => s = w.store ∨ s = w.store.put (Store.edited t proposed)) jobs
        others w w₁ ∧ w₁.store = w.store.put (Store.edited t proposed) := by
  obtain ⟨left, -, hcall⟩ := b.call_eq_read retries
  have hread := RunThrough.read_alone (w := w) others hj hcall
  rw [Ballot.offer_of_proposes retries left ht h] at hread
  let writing : Client := ⟨.vote b retries, .write (.spec proposed) (b.settle retries left), []⟩
  have hstep : (writing.step w.store).2 = w.store.put (Store.edited t proposed) := by
    simp only [writing, Client.step, Call.step, Submission.run, Ballot.update_of_proposes ht h]
    rfl
  have hlast : (w.clients ++ [writing])[w.clients.length]? = some writing := by simp
  have hthrough : RunThrough (fun s => s = w.store ∨ s = w.store.put (Store.edited t proposed)) jobs
      others w ⟨w.store, w.clients ++ [writing]⟩ := hread.weaken fun s hs => .inl hs
  exact ⟨_, hthrough.tail ⟨.act _ w.clients.length writing hlast, .inr hstep⟩, hstep⟩

end Traffic
end Quorum
