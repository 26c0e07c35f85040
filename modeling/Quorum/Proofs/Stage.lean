import Quorum.Proofs.Plan
import Quorum.Proofs.Traffic

/-!
# How far a vote or a pass has come

A vote decides on a copy of the task that it read some time ago, and so does a pass. The write of
either is accepted only if the stored task has the version of that copy, and then it still is that
copy. So what was decided is what is done to the task that is stored (`Job.Lands`), no matter who
else writes in between.
-/
namespace Quorum
namespace Ballot
variable {b : Ballot} {s s' : Store}

/-- `proposed` is `read` with the vote in it, and admitted against it. -/
structure Proposes (b : Ballot) (read proposed : Task) : Prop where
  edit : b.edit? read.spec = some proposed.spec
  kept : proposed = { read with spec := proposed.spec }
  allowed : (Admission.respond (.update b.principal proposed read)).allowed = true

theorem Proposes.key_eq {read proposed : Task} (h : b.Proposes read proposed) :
    proposed.key = read.key := by
  rw [h.kept]
  rfl

theorem Proposes.version_eq {read proposed : Task} (h : b.Proposes read proposed) :
    proposed.metadata.version = read.metadata.version := by
  rw [h.kept]

theorem propose_eq_ok_iff {proposed : Task} :
    b.propose s = .ok proposed ↔ ∃ read, s.get? b.key = some read ∧ b.Proposes read proposed := by
  simp only [propose, bind_eq_ok_iff, mapError_eq_ok_iff, Store.get_eq_ok_iff]
  constructor
  · intro h
    obtain ⟨read, hread, hmake⟩ := h
    cases hedit : b.edit? read.spec with
    | none =>
      rw [hedit] at hmake
      cases hmake
    | some spec =>
      simp only [hedit, bind_eq_ok_iff, mapError_eq_ok_iff] at hmake
      obtain ⟨⟨⟩, hreview, ⟨⟩⟩ := hmake
      exact ⟨read, hread, hedit, rfl, Admission.respond_allowed_iff.mpr hreview⟩
  · intro h
    obtain ⟨read, hread, hedit, hkept, hallowed⟩ := h
    refine ⟨read, hread, ?_⟩
    simp only [hedit, ← hkept, bind_eq_ok_iff, mapError_eq_ok_iff]
    exact ⟨(), Admission.respond_allowed_iff.mp hallowed, rfl⟩

theorem offer_of_proposes {read proposed : Task} (retries left : Nat)
    (hread : s.get? b.key = some read) (h : b.Proposes read proposed) :
    b.offer retries left s = .write (.spec proposed) (b.settle retries left) := by
  rw [offer, propose_eq_ok_iff.mpr ⟨read, hread, h⟩]

theorem update_of_proposes {read proposed : Task} (hread : s.get? b.key = some read)
    (h : b.Proposes read proposed) :
    s.update proposed = .ok (Store.edited read proposed, s.put (Store.edited read proposed)) := by
  refine Store.update_eq_ok_iff.mpr ⟨read, ?_, h.version_eq, rfl, rfl⟩
  rw [h.key_eq, Store.key_of_get? hread, hread]

/-- A vote starts by reading, with one try spent. -/
theorem call_eq_read (b : Ballot) (retries : Nat) :
    ∃ left, attempts retries = left + 1 ∧ b.call retries = .read (b.offer retries left) := by
  obtain ⟨left, hleft⟩ : ∃ left, attempts retries = left + 1 := by
    refine Nat.exists_eq_succ_of_ne_zero ?_
    unfold attempts Bounds.nat32Max
    omega
  exact ⟨left, hleft, by rw [call, hleft, callWith_succ]⟩

/-- Alone, a vote that is admitted is written at the first try. -/
theorem cast_of_proposes {read proposed : Task} (retries : Nat)
    (hread : s.get? b.key = some read) (h : b.Proposes read proposed) :
    b.cast retries s = (.ok (Store.edited read proposed), s.put (Store.edited read proposed)) := by
  obtain ⟨left, -, hcall⟩ := b.call_eq_read retries
  rw [← run_call, hcall, Call.run, offer_of_proposes retries left hread h]
  simp only [Call.run, Submission.run, update_of_proposes hread h]
  rfl

/-- A vote that cannot be proposed is not tried again. -/
theorem cast_of_refused {e : CastError} (retries : Nat) (h : b.propose s = .error e) :
    b.cast retries s = (.error e, s) := by
  obtain ⟨left, -, hcall⟩ := b.call_eq_read retries
  rw [← run_call, hcall, Call.run, offer, h]
  rfl

theorem cast_eq_ok_iff {retries : Nat} {t : Task} :
    b.cast retries s = (.ok t, s') ↔ ∃ read proposed, s.get? b.key = some read ∧
      b.Proposes read proposed ∧ t = Store.edited read proposed ∧ s' = s.put t := by
  constructor
  · intro h
    cases hpropose : b.propose s with
    | error e =>
      rw [cast_of_refused retries hpropose] at h
      cases h
    | ok proposed =>
      obtain ⟨read, hread, hproposes⟩ := propose_eq_ok_iff.mp hpropose
      rw [cast_of_proposes retries hread hproposes] at h
      cases h
      exact ⟨read, proposed, hread, hproposes, rfl, rfl⟩
  · intro h
    obtain ⟨read, proposed, hread, hproposes, rfl, rfl⟩ := h
    exact cast_of_proposes retries hread hproposes

/-- A vote in the task that `s` stores makes `s'` of it, with `t` the task that is written. -/
def Lands (b : Ballot) (s s' : Store) (t : Task) : Prop :=
  ∃ cur spec, s.get? b.key = some cur ∧ b.edit? cur.spec = some spec ∧
    (Admission.respond (.update b.principal { cur with spec } cur)).allowed = true ∧
    t = { cur with spec, metadata.version := cur.metadata.version + 1 } ∧ s' = s.put t

/-- How far a vote has come, while the store is `s`, and what it has written. -/
inductive Stage (b : Ballot) (retries : Nat) (s : Store) :
    Call (Except CastError Task) → List (Store × Store) → Prop
  | reading (left : Nat) : Stage b retries s (.read (b.offer retries left)) []
  | writing (left : Nat) {read proposed : Task} (hkey : read.key = b.key)
    (hread : s.Follows read) (hproposes : b.Proposes read proposed) :
    Stage b retries s (.write (.spec proposed) (b.settle retries left)) []
  | failed (e : CastError) : Stage b retries s (.done (.error e)) []
  | landed {before after : Store} {t : Task} (hlands : b.Lands before after t) :
    Stage b retries s (.done (.ok t)) [(before, after)]

namespace Stage
variable {retries : Nat} {call : Call (Except CastError Task)} {landed : List (Store × Store)}

theorem callWith (left : Nat) : Stage b retries s (b.callWith retries left) [] := by
  cases left with
  | zero =>
    rw [callWith_zero]
    exact .failed _
  | succ left =>
    rw [callWith_succ]
    exact .reading left

theorem settle_error (left : Nat) (e : StoreError) :
    Stage b retries s (b.settle retries left (.error e)) [] := by
  cases e with
  | conflict => exact callWith left
  | notFound => exact .failed _
  | alreadyExists => exact .failed _

theorem offer (left : Nat) : Stage b retries s (b.offer retries left s) [] := by
  unfold Ballot.offer
  cases hpropose : b.propose s with
  | error e => exact .failed e
  | ok proposed =>
    obtain ⟨read, hread, hproposes⟩ := propose_eq_ok_iff.mp hpropose
    exact .writing left (Store.key_of_get? hread) (.of_get? hread) hproposes

/-- Others may write as they please. -/
theorem advance (h : Stage b retries s call landed) (hadv : s.Advances b.key s') :
    Stage b retries s' call landed := by
  cases h with
  | reading left => exact .reading left
  | writing left hkey hread hproposes =>
    exact .writing left hkey (hread.advance (hkey ▸ hadv)) hproposes
  | failed e => exact .failed e
  | landed hlands => exact .landed hlands

end Stage

/-- A write that is accepted is the edit that was admitted, of the task that it replaces. -/
theorem Proposes.lands {read proposed t : Task} (h : b.Proposes read proposed)
    (hkey : read.key = b.key) (hread : s.Follows read) (hroom : s.HasRoom b.key)
    (hwrite : s.update proposed = .ok (t, s')) : b.Lands s s' t := by
  obtain ⟨cur, hcur, hversion, rfl, rfl⟩ := Store.update_eq_ok_iff.mp hwrite
  rw [h.key_eq] at hcur
  rw [h.version_eq] at hversion
  obtain rfl : cur = read := hread.eq_of_version (hkey ▸ hroom) hcur hversion
  rw [hkey] at hcur
  have hnext : Store.nextVersion cur.metadata.version = cur.metadata.version + 1 := by
    have := hroom cur hcur
    unfold Store.nextVersion
    omega
  refine ⟨cur, proposed.spec, hcur, h.edit, h.kept ▸ h.allowed, ?_, rfl⟩
  rw [Store.edited, hnext, h.kept]

theorem Stage.step {retries : Nat} {call : Call (Except CastError Task)}
    {landed : List (Store × Store)} (h : Stage b retries s call landed)
    (hroom : s.HasRoom b.key) :
    Stage b retries ((call.step s).2.getD s) (call.step s).1
      (landed ++ (call.step s).2.toList.map (s, ·)) := by
  cases h with
  | reading left => exact .offer left
  | writing left hkey hread hproposes =>
    simp only [Call.step, Submission.run]
    cases hwrite : s.update _ with
    | error e => exact .settle_error left e
    | ok written => exact .landed (hproposes.lands hkey hread hroom hwrite)
  | failed e => exact .failed e
  | landed hlands => exact .landed hlands

end Ballot

namespace Pass
variable {key : String} {now : Instant} {limit : Span} {s s' : Store}

/-- A pass over the task that `s` stores makes `s'` of it, with `t` the task that is written. -/
def Lands (key : String) (now : Instant) (limit : Span) (s s' : Store) (t : Task) : Prop :=
  ∃ cur, s.get? key = some cur ∧ (plan cur now limit).changed = true ∧
    t = Store.reported cur (plan cur now limit).task ∧ s' = s.put t

theorem updateStatus_plan {t : Task} (hread : s.get? key = some t) :
    s.updateStatus (plan t now limit).task =
      .ok (Store.reported t (plan t now limit).task,
        s.put (Store.reported t (plan t now limit).task)) := by
  have hkeeps := keeps_plan t now limit
  refine Store.updateStatus_eq_ok_iff.mpr ⟨t, ?_, hkeeps.version_eq, rfl, rfl⟩
  rw [hkeeps.key_eq, Store.key_of_get? hread, hread]

/-- Alone, a pass writes what it planned. -/
theorem run_of_changed {t : Task} (hread : s.get? key = some t)
    (hchanged : (plan t now limit).changed = true) :
    run key now limit s = (.ok ((plan t now limit).report now limit),
      s.put (Store.reported t (plan t now limit).task)) := by
  rw [← run_call, call_eq, Call.run, Pass.offer, Store.get_eq_ok_iff.mpr hread]
  simp only [if_pos hchanged, Call.run, Submission.run, updateStatus_plan hread]
  rfl

/-- How far a pass has come, while the store is `s`, and what it has written. -/
inductive Stage (key : String) (now : Instant) (limit : Span) (s : Store) :
    Call (Except StoreError Report) → List (Store × Store) → Prop
  | reading : Stage key now limit s (.read (offer key now limit)) []
  | writing {read : Task} (hkey : read.key = key) (hread : s.Follows read)
    (hchanged : (plan read now limit).changed = true) :
    Stage key now limit s
      (.write (.status (plan read now limit).task) (settle (plan read now limit) now limit)) []
  | idle (a : Except StoreError Report) : Stage key now limit s (.done a) []
  | landed {before after : Store} {t : Task} (report : Report)
    (hlands : Lands key now limit before after t) :
    Stage key now limit s (.done (.ok report)) [(before, after)]

namespace Stage
variable {call : Call (Except StoreError Report)} {landed : List (Store × Store)}

theorem offer : Stage key now limit s (offer key now limit s) [] := by
  unfold Pass.offer
  cases hget : s.get key with
  | error e => exact .idle _
  | ok t =>
    have hread := Store.get_eq_ok_iff.mp hget
    by_cases hchanged : (plan t now limit).changed = true
    · simp only [if_pos hchanged]
      exact .writing (Store.key_of_get? hread) (.of_get? hread) hchanged
    · simp only [if_neg hchanged]
      exact .idle _

theorem advance (h : Stage key now limit s call landed) (hadv : s.Advances key s') :
    Stage key now limit s' call landed := by
  cases h with
  | reading => exact .reading
  | writing hkey hread hchanged => exact .writing hkey (hread.advance (hkey ▸ hadv)) hchanged
  | idle a => exact .idle a
  | landed report hlands => exact .landed report hlands

end Stage

/-- A write that is accepted is what was planned, for the task that it replaces. -/
theorem lands_of_updateStatus {read t : Task} (hkey : read.key = key) (hread : s.Follows read)
    (hchanged : (plan read now limit).changed = true) (hroom : s.HasRoom key)
    (hwrite : s.updateStatus (plan read now limit).task = .ok (t, s')) :
    Lands key now limit s s' t := by
  obtain ⟨cur, hcur, hversion, rfl, rfl⟩ := Store.updateStatus_eq_ok_iff.mp hwrite
  rw [(keeps_plan read now limit).key_eq] at hcur
  rw [(keeps_plan read now limit).version_eq] at hversion
  obtain rfl : cur = read := hread.eq_of_version (hkey ▸ hroom) hcur hversion
  exact ⟨cur, hkey ▸ hcur, hchanged, rfl, rfl⟩

theorem Stage.step {call : Call (Except StoreError Report)} {landed : List (Store × Store)}
    (h : Stage key now limit s call landed) (hroom : s.HasRoom key) :
    Stage key now limit ((call.step s).2.getD s) (call.step s).1
      (landed ++ (call.step s).2.toList.map (s, ·)) := by
  cases h with
  | reading => exact .offer
  | writing hkey hread hchanged =>
    simp only [Call.step, Submission.run]
    cases hwrite : s.updateStatus _ with
    | error e => exact .idle _
    | ok written =>
      exact .landed _ (lands_of_updateStatus hkey hread hchanged hroom hwrite)
  | idle a => exact .idle a
  | landed report hlands => exact .landed report hlands

end Pass

/-- A write of the job makes `s'` of `s`. -/
def Job.Lands (s s' : Store) : Job → Prop
  | vote b _ => ∃ t, b.Lands s s' t
  | pass key now limit => ∃ t, Pass.Lands key now limit s s' t

namespace Client

/-- The client is in one of the stages of its job, as long as its task can be written at all. -/
def Staged (s : Store) : Client → Prop
  | ⟨.vote b retries, call, landed⟩ => s.HasRoom b.key → b.Stage retries s call landed
  | ⟨.pass key now limit, call, landed⟩ => s.HasRoom key → Pass.Stage key now limit s call landed

variable {c : Client} {s s' : Store}

theorem staged_start (s : Store) (j : Job) : (start j).Staged s := by
  cases j with
  | vote b retries => exact fun _ => .callWith _
  | pass key now limit => exact fun _ => .reading

theorem Staged.advance (h : c.Staged s) (hadv : s.Advances c.job.key s') : c.Staged s' := by
  obtain ⟨_ | _, call, landed⟩ := c
  · exact fun hroom => (h (hroom.of_advances hadv)).advance hadv
  · exact fun hroom => (h (hroom.of_advances hadv)).advance hadv

theorem Staged.step (h : c.Staged s) : (c.step s).1.Staged (c.step s).2 := by
  have hadv := c.advances_step s
  obtain ⟨_ | _, call, landed⟩ := c
  · intro hroom
    have hbefore := hroom.of_advances (hadv _)
    exact (h hbefore).step hbefore
  · intro hroom
    have hbefore := hroom.of_advances (hadv _)
    exact (h hbefore).step hbefore

/-- A step of a client leaves the store as it is or does what the job is for. -/
theorem Staged.lands (h : c.Staged s) (hroom : s.HasRoom c.job.key) :
    (c.step s).2 = s ∨ c.job.Lands s (c.step s).2 := by
  obtain ⟨_ | _, call, landed⟩ := c
  · cases h hroom with
    | writing left hkey hread hproposes =>
      simp only [Client.step, Call.step, Submission.run]
      cases hwrite : s.update _ with
      | error e => exact .inl rfl
      | ok written => exact .inr ⟨_, hproposes.lands hkey hread hroom hwrite⟩
    | _ => exact .inl rfl
  · cases h hroom with
    | writing hkey hread hchanged =>
      simp only [Client.step, Call.step, Submission.run]
      cases hwrite : s.updateStatus _ with
      | error e => exact .inl rfl
      | ok written =>
        exact .inr ⟨_, Pass.lands_of_updateStatus hkey hread hchanged hroom hwrite⟩
    | _ => exact .inl rfl

end Client

namespace Traffic
variable {jobs : Job → Prop} {others : Store → Store → Prop} {w : Traffic} {s : Store}

/-- Others may write as the store lets them, at least where there are jobs to do. -/
theorem Run.staged (h : Run jobs others (start s) w)
    (hothers : ∀ j, jobs j → ∀ s s', others s s' → s.Advances j.key s') :
    ∀ c ∈ w.clients, jobs c.job ∧ c.Staged w.store := by
  induction h with
  | refl =>
    intro c hc
    cases hc
  | tail _ hstep ih =>
    intro c hc
    rcases hstep.client_cases hc with ⟨j, hj, rfl⟩ | ⟨d, hd, rfl, hstore⟩ | hold
    · exact ⟨hj, Client.staged_start _ j⟩
    · exact ⟨(ih d hd).1, hstore ▸ (ih d hd).2.step⟩
    · obtain ⟨hjob, hstaged⟩ := ih c hold
      exact ⟨hjob, hstaged.advance (hstep.advances (hothers c.job hjob))⟩

end Traffic
end Quorum
