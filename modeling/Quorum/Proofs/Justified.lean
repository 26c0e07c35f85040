import Quorum.Draft
import Quorum.Params
import Quorum.Proofs.Stage
import Quorum.Proofs.Tally
import Quorum.Proofs.Wire

/-!
# Final statuses have their reasons

A status says approved only over a specification that has its quorum and no rejection, and rejected
only over one that holds a rejection, or because the deadline passed (`Task.Justified`). Passes keep
it so because what they count is the specification that is stored when they write; edits, because
nobody edits a task whose status is final (`Traffic.final_status_is_justified`).
-/
namespace Quorum

/-- The status is no more than the votes or the clock account for: an approval has a quorum and no
rejection behind it, and a rejection has a rejecting vote or the deadline. -/
structure Task.Justified (t : Task) : Prop where
  members_in_groups : t.spec.MembersInGroups
  approved : t.status.state = .approved → t.spec.HasQuorum ∧ ¬ t.spec.HoldsReject
  rejected : t.status.state = .rejected →
    t.spec.HoldsReject ∨ t.status.reason = some (Deadline.reason t.metadata.name)

theorem Task.Justified.of_pending {t : Task} (hmembers : t.spec.MembersInGroups)
    (hpending : t.status.state = .pending) : t.Justified where
  members_in_groups := hmembers
  approved happroved := by
    rw [hpending] at happroved
    cases happroved
  rejected hrejected := by
    rw [hpending] at hrejected
    cases hrejected

theorem mem_of_modifyFirst? {p : α → Bool} {f : α → α} {as bs : List α} {b : α}
    (h : modifyFirst? p f as = some bs) (hb : b ∈ bs) :
    b ∈ as ∨ ∃ a ∈ as, p a = true ∧ b = f a := by
  induction as generalizing bs with
  | nil => cases h
  | cons a as ih =>
    rw [modifyFirst?] at h
    by_cases hp : p a = true
    · rw [if_pos hp] at h
      cases h
      rcases List.mem_cons.mp hb with rfl | hb
      · exact .inr ⟨a, List.mem_cons_self, hp, rfl⟩
      · exact .inl (List.mem_cons_of_mem a hb)
    · rw [if_neg hp] at h
      obtain ⟨cs, hcs, rfl⟩ := Option.map_eq_some_iff.mp h
      rcases List.mem_cons.mp hb with rfl | hb
      · exact .inl List.mem_cons_self
      · rcases ih hcs hb with hold | ⟨x, hx, hpx, rfl⟩
        · exact .inl (List.mem_cons_of_mem a hold)
        · exact .inr ⟨x, List.mem_cons_of_mem a hx, hpx, rfl⟩

namespace Ballot
variable {b : Ballot} {old new : Spec}

/-- An approver after a vote: as it was, or with the vote in its user entry or its group. -/
theorem mem_of_edit? {n : Approver} (h : b.edit? old = some new) (hn : n ∈ new.approvers) :
    n ∈ old.approvers ∨ ∃ o ∈ old.approvers,
      b.isUserEntry o = true ∧ n = b.inUserEntry o ∨ b.isOwnGroup o = true ∧ n = b.inGroup o := by
  obtain ⟨as, has, rfl⟩ := Option.map_eq_some_iff.mp h
  rcases Option.or_eq_some_iff.mp has with huser | ⟨-, hgroup⟩
  · rcases mem_of_modifyFirst? huser hn with hold | ⟨o, ho, hp, rfl⟩
    · exact .inl hold
    · exact .inr ⟨o, ho, .inl ⟨hp, rfl⟩⟩
  · rcases mem_of_modifyFirst? hgroup hn with hold | ⟨o, ho, hp, rfl⟩
    · exact .inl hold
    · exact .inr ⟨o, ho, .inr ⟨hp, rfl⟩⟩

theorem membersInGroups (h : b.edit? old = some new) (hold : old.MembersInGroups) :
    new.MembersInGroups := by
  intro n hn hmembers
  rcases mem_of_edit? h hn with hkept | ⟨o, ho, ⟨-, rfl⟩ | ⟨hown, rfl⟩⟩
  · exact hold n hkept hmembers
  · exact hold o ho hmembers
  · simp only [isOwnGroup, Approver.isGroup, Bool.and_eq_true, decide_eq_true_eq] at hown
    exact hown.1

end Ballot

theorem TaskParams.toTask_eq_ok_iff {p : TaskParams} {name : String} {now : Instant} {t : Task} :
    p.toTask name now = .ok t ↔
      p.spec.WellFormed ∧ p.spec.AllPending ∧ t = p.task name now := by
  rw [toTask, bind_eq_ok_iff]
  constructor
  · intro h
    obtain ⟨⟨⟩, hvalidated, ⟨⟩⟩ := h
    obtain ⟨hvalid, hpending⟩ := Spec.validateNew_eq_ok_iff.mp hvalidated
    exact ⟨hvalid, hpending, rfl⟩
  · intro h
    obtain ⟨hvalid, hpending, rfl⟩ := h
    exact ⟨(), Spec.validateNew_eq_ok_iff.mpr ⟨hvalid, hpending⟩, rfl⟩

namespace Pass
variable {t : Task} {start now : Instant} {limit : Span}

theorem justified_withStart (h : t.Justified) : (withStart t now).Justified :=
  ⟨h.members_in_groups, h.approved, h.rejected⟩

theorem justified_count (h : t.Justified) : (count t).1.Justified := by
  unfold count
  by_cases hdigest : t.digest? = some (Digest.ofApprovers t.spec.approvers)
  · rw [if_pos hdigest]
    exact h
  · rw [if_neg hdigest]
    by_cases hfinal : t.status.state.isFinal = true
    · have hstatus : t.spec.aggregate (some t.status) = t.status := by
        simp only [Spec.aggregate, if_pos hfinal]
      rw [hstatus]
      exact ⟨h.members_in_groups, h.approved, h.rejected⟩
    · have hstatus : t.spec.aggregate (some t.status) = t.spec.freshStatus t.status.startTime := by
        simp only [Spec.aggregate, if_neg hfinal]
      rw [hstatus]
      refine ⟨h.members_in_groups, fun happroved => ?_, fun hrejected => .inl ?_⟩
      · exact (Spec.state_eq_approved_iff h.members_in_groups).mp happroved
      · exact (Spec.state_eq_rejected_iff h.members_in_groups).mp hrejected

theorem justified_expire (h : t.Justified) : (expire t start now limit).1.Justified := by
  unfold expire
  split
  · refine ⟨h.members_in_groups, fun happroved => ?_, fun _ => .inr rfl⟩
    cases happroved
  · exact h

theorem justified_plan (h : t.Justified) : (plan t now limit).task.Justified := by
  rw [plan_task]
  by_cases hfinal : t.status.state.isFinal = true
  · rw [if_pos hfinal]
    exact justified_withStart h
  · rw [if_neg hfinal]
    exact justified_expire (justified_count (justified_withStart h))

/-- What the pass writes is what it planned, if it planned it for the task that is stored. -/
theorem justified_reported (h : t.Justified) :
    (Store.reported t (plan t now limit).task).Justified := by
  have hplan : (plan t now limit).task.Justified := justified_plan h
  have hkeeps := keeps_plan t now limit
  refine ⟨h.members_in_groups, fun happroved => ?_, fun hrejected => ?_⟩
  · exact hkeeps.spec_eq ▸ hplan.approved happroved
  · have hreason := hplan.rejected hrejected
    rw [hkeeps.spec_eq, hkeeps.name_eq] at hreason
    exact hreason

end Pass

/-- Nobody is allowed to edit a task whose status is final. -/
theorem Admission.pending_of_allowed {r : Request} {cur : Task} (hop : r.operation = .update)
    (hold : r.oldObject = some cur.toJson) (hallowed : (respond r).allowed = true) :
    cur.status.state = .pending := by
  obtain ⟨new, old, -, hdecodes, -, hcleared⟩ := (respond_update_allowed_iff hop).mp hallowed
  rw [hold] at hdecodes
  have hopen := hcleared.status_open
  rw [Status.state_of_decoder_eq_ok (Task.decoder_eq_ok hdecodes).2] at hopen
  cases hstate : cur.status.state with
  | pending => rfl
  | approved =>
    rw [hstate] at hopen
    cases hopen
  | rejected =>
    rw [hstate] at hopen
    cases hopen

/-- A write of a specification that was admitted against the task it replaces, whenever that task
was read. Whatever else the written task holds is its writer's. -/
def Store.DirectEdit (s s' : Store) : Prop :=
  ∃ (r : Admission.Request) (cur new incoming t : Task), s.get? incoming.key = some cur ∧
    r.operation = .update ∧ r.oldObject = some cur.toJson ∧
    Task.decoder.ofJson r.object = .ok new ∧ (Admission.respond r).allowed = true ∧
    incoming.spec = new.spec ∧ s.update incoming = .ok (t, s')

/-- A direct edit of any task, or whatever does not touch the task at `key`. -/
def Store.OtherWrite (key : String) (s s' : Store) : Prop :=
  s.DirectEdit s' ∨ s'.get? key = s.get? key

/-- Whatever is filed under the key is justified. A key with nothing under it is fine. -/
def Store.JustifiedAt (key : String) (s : Store) : Prop :=
  ∀ t, s.get? key = some t → t.Justified

namespace Store
variable {s s' : Store} {key : String} {t : Task}

theorem OtherWrite.advances (h : OtherWrite key s s') : s.Advances key s' := by
  rcases h with ⟨_, _, _, _, _, -, -, -, -, -, -, hwrite⟩ | hsame
  · exact .update hwrite
  · exact .of_get?_eq hsame

theorem JustifiedAt.put (h : s.JustifiedAt key) (ht : t.Justified) :
    (s.put t).JustifiedAt key := by
  intro u hu
  rw [get?_put] at hu
  by_cases hkey : key = t.key
  · rw [if_pos hkey] at hu
    cases hu
    exact ht
  · rw [if_neg hkey] at hu
    exact h u hu

theorem OtherWrite.justified (h : OtherWrite key s s') (hs : s.JustifiedAt key) :
    s'.JustifiedAt key := by
  rcases h with ⟨r, cur, new, incoming, t, hcur, hop, hold, hnew, hallowed, hspec, hwrite⟩ | hsame
  · have hpending := Admission.pending_of_allowed hop hold hallowed
    obtain ⟨new', -, hnew', -, hvalid, -⟩ := (Admission.respond_update_allowed_iff hop).mp hallowed
    obtain rfl : new' = new := Except.ok.inj (hnew'.symm.trans hnew)
    obtain ⟨cur', hcur', -, rfl, rfl⟩ := update_eq_ok_iff.mp hwrite
    obtain rfl : cur' = cur := Option.some.inj (hcur'.symm.trans hcur)
    exact hs.put (.of_pending (hspec ▸ hvalid.membersInGroups) hpending)
  · intro t ht
    exact hs t (hsame ▸ ht)

end Store

theorem Job.Lands.justified {j : Job} {s s' : Store} (h : j.Lands s s')
    (hs : s.JustifiedAt j.key) : s'.JustifiedAt j.key := by
  cases j with
  | vote b retries =>
    obtain ⟨t, cur, spec, hcur, hedit, hallowed, rfl, rfl⟩ := h
    have hpending : cur.status.state = .pending := Admission.pending_of_allowed rfl rfl hallowed
    have hmembers := Ballot.membersInGroups hedit (hs cur hcur).members_in_groups
    exact hs.put (.of_pending hmembers hpending)
  | pass key now limit =>
    obtain ⟨t, cur, hcur, -, rfl, rfl⟩ := h
    exact hs.put (Pass.justified_reported (hs cur hcur))

namespace Traffic
variable {key : String} {s : Store} {w : Traffic}

theorem Run.justified (h : Run (fun j => j.key = key) (Store.OtherWrite key) (start s) w)
    (hs : s.JustifiedAt key) (hroom : w.store.HasRoom key) : w.store.JustifiedAt key := by
  have hadvances (j : Job) (hj : j.key = key) (s s' : Store) (hwrite : s.OtherWrite key s') :
      s.Advances j.key s' := hj.symm ▸ hwrite.advances
  induction h with
  | refl => exact hs
  | @tail w₁ w₂ hrun hstep ih =>
    have hbefore : w₁.store.HasRoom key :=
      hroom.of_advances (hstep.advances fun s s' hwrite => hwrite.advances)
    have hw₁ := ih hbefore
    cases hstep with
    | arrive j hj => exact hw₁
    | write s' hwrite => exact hwrite.justified hw₁
    | act i c hc =>
      obtain ⟨hjob, hstaged⟩ := Run.staged hrun hadvances c (List.mem_of_getElem? hc)
      subst hjob
      rcases hstaged.lands hbefore with hsame | hlands
      · exact hsame.symm ▸ hw₁
      · exact hlands.justified hw₁

/-- Whoever votes, edits or reconciles a task, and in whatever order, its status is final only for a
reason. Versions rise to the largest number of 64 bits and stay there. From then on a pass is no
longer told that an edit came in between, and can make a task final for the votes of a list that
the edit has replaced. `hroom` says that the versions of the task have not come to this end; a task
that starts at version 1 comes to it only after as many writes. -/
theorem final_status_is_justified {p : TaskParams} {name : String} {now : Instant}
    {t₀ t₁ : Task} {s₀ : Store} (hbuilt : p.toTask name now = .ok t₀)
    (hcreated : s.create t₀ = .ok (t₁, s₀))
    (hrun : Run (fun j => j.key = t₀.key) (Store.OtherWrite t₀.key) (start s₀) w)
    (hroom : w.store.HasRoom t₀.key) :
    ∃ t, w.store.get? t₀.key = some t ∧
      (t.status.state = .approved → t.spec.HasQuorum ∧ ¬ t.spec.HoldsReject) ∧
      (t.status.state = .rejected →
        t.spec.HoldsReject ∨ t.status.reason = some (Deadline.reason t.metadata.name)) := by
  obtain ⟨hvalid, -, rfl⟩ := TaskParams.toTask_eq_ok_iff.mp hbuilt
  obtain ⟨-, rfl, rfl⟩ := Store.create_eq_ok_iff.mp hcreated
  set t₁ : Task := { p.task name now with metadata.version := 1 }
  have hstored : (s.put t₁).get? t₁.key = some t₁ := by simp
  have hjustified : (s.put t₁).JustifiedAt t₁.key := by
    intro t ht
    obtain rfl : t₁ = t := Option.some.inj (hstored.symm.trans ht)
    exact .of_pending hvalid.membersInGroups rfl
  obtain ⟨t, ht⟩ := hrun.stays_stored (fun s s' hwrite => hwrite.advances) hstored
  have := hrun.justified hjustified hroom t ht
  exact ⟨t, ht, this.approved, this.rejected⟩

def soleSpec (vote : Vote) : Spec := ⟨[{ Approver.user "ann" with vote }], 1, none⟩

def soleParams : TaskParams := { approvers := [.user "ann"] }

/-- The task of a run that one user decides, as it is stored first. -/
def soleTask : Task :=
  { soleParams.task "gate" Draft.epoch with metadata.version := 1 }

/-- The user's approval, written without the digest that the task has carried. -/
def bareApproval : Task := ⟨{ name := "gate", version := 1 }, soleSpec .approve, {}⟩

theorem soleApproval_authorized : authorize soleTask (soleSpec .approve) ⟨"ann", []⟩ = .allow := by
  decide +kernel

theorem bareApproval_allowed :
    (Admission.respond (.update ⟨"ann", []⟩ bareApproval soleTask)).allowed = true :=
  Admission.update_allowed_of_authorized rfl rfl (by decide) soleApproval_authorized

/-- The user approves, and a pass makes the task approved. -/
theorem counted_approval_is_justified :
    ∃ w t, Run (fun j => j.key = "gate") (Store.OtherWrite "gate")
        (start (Store.empty.put soleTask)) w ∧
      w.store.get? "gate" = some t ∧ t.status.state = .approved ∧ t.spec.HasQuorum ∧
      ¬ t.spec.HoldsReject := by
  let s₁ := Store.empty.put soleTask
  let edited := Store.edited soleTask bareApproval
  let s₂ := s₁.put edited
  let t := Store.reported edited (Pass.plan edited Draft.epoch .zero).task
  have hbuilt : soleParams.toTask "gate" Draft.epoch = .ok (soleParams.task "gate" Draft.epoch) :=
    rfl
  have hcreated : Store.empty.create (soleParams.task "gate" Draft.epoch) = .ok (soleTask, s₁) :=
    rfl
  have hplan : (Pass.plan edited Draft.epoch .zero).changed = true ∧
      (Pass.plan edited Draft.epoch .zero).task.status.state = .approved := by
    decide
  have hedit : Run (fun j => j.key = "gate") (Store.OtherWrite "gate") (start s₁) ⟨s₂, []⟩ :=
    .single (.write (start s₁) s₂ (.inl ⟨.update ⟨"ann", []⟩ bareApproval soleTask, soleTask,
      bareApproval, bareApproval, edited, rfl, rfl, rfl, rfl, bareApproval_allowed, rfl, rfl⟩))
  have hedited : s₂.get? "gate" = some edited :=
    (Store.get?_put s₁ edited "gate").trans (if_pos rfl)
  have hpass : ∃ c, Run (fun j => j.key = "gate") (Store.OtherWrite "gate") ⟨s₂, []⟩
      ⟨s₂.put t, [c]⟩ := Run.pass_alone rfl (Pass.run_of_changed hedited hplan.1)
  obtain ⟨pass, hpass⟩ := hpass
  have hget : (s₂.put t).get? "gate" = some t :=
    (Store.get?_put s₂ t "gate").trans (if_pos rfl)
  have hroom : (s₂.put t).HasRoom "gate" := by
    intro u hu
    obtain rfl : t = u := Option.some.inj (hget.symm.trans hu)
    have hversion : t.metadata.version = 3 := Store.version_reported
    rw [hversion]
    decide
  obtain ⟨u, hu, happroved, -⟩ :=
    final_status_is_justified hbuilt hcreated (hedit.trans hpass) hroom
  obtain rfl : t = u := Option.some.inj (hget.symm.trans hu)
  exact ⟨_, t, hedit.trans hpass, hget, hplan.2, happroved hplan.2⟩

end Traffic
end Quorum
