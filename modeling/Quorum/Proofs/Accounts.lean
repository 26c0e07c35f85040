import Quorum.Proofs.Ending
import Quorum.Proofs.HexDigits
import Quorum.Proofs.Justified

/-!
# Which votes a pass accounts for

A pass counts the votes unless the digest on record is that of the approver list, and the digest on
record is whatever the last specification write left there. As long as nobody writes a list together
with the digest of that very list, a digest that fits is one that a pass has written with its count
(`Task.Accounted`), and the next pass accounts for every vote (`Traffic.next_pass_accounts`). A
voter who does write both is not counted (`Traffic.digest_of_own_vote_hides_it`).
-/
namespace Quorum

namespace Spec.AllPending
variable {s : Spec}

theorem tally_eq (h : s.AllPending) : s.tally = ⟨.empty, false⟩ := by
  have happroving : s.approvers.flatMap Approver.approving = [] := by
    rw [List.flatMap_eq_nil_iff]
    intro a ha
    rw [List.eq_nil_iff_forall_not_mem]
    intro name hname
    rcases Approver.mem_approving_iff.mp hname with ⟨-, -, hvote⟩ | ⟨-, hm⟩
    · cases (h.approvers_pending a ha).symm.trans hvote
    · cases h.members_pending a ha _ hm
  have hrejects : s.approvers.any Approver.rejects = false := by
    rw [List.any_eq_false]
    intro a ha
    simpa [Approver.rejects, h.approvers_pending a ha] using fun _ m hm =>
      (h.members_pending a ha m hm) ▸ (by decide : Vote.pending ≠ .reject)
  rw [tally, happroving, hrejects]
  rfl

theorem responses_eq (h : s.AllPending) : s.responses = [] := by
  have hnone : s.approvers.filter Approver.hasDecision = [] := by
    rw [List.filter_eq_nil_iff]
    intro a ha
    have hmembers : ∀ m ∈ a.members, m.vote.isDecided = false := fun m hm => by
      rw [h.members_pending a ha m hm]
      rfl
    simpa [Approver.hasDecision, h.approvers_pending a ha, Vote.isDecided] using hmembers
  rw [responses, hnone, List.map_nil, List.mergeSort_nil]

/-- Counting nobody's votes gives the status of a new task. -/
theorem freshStatus_eq (h : s.AllPending) : s.freshStatus none = Status.initial s := by
  have hstate : (Tally.mk .empty false).state s.required = .pending := by
    have hmeets : (Tally.mk .empty false).meets s.required = false := by
      simp only [Tally.meets, Tally.received, NameSet.size, NameSet.empty, List.length_nil]
      grind
    simp [Tally.state, hmeets]
  rw [freshStatus, h.tally_eq, h.responses_eq, hstate]
  rfl

end Spec.AllPending

/-- The status says of the votes what the specification does. -/
structure Status.AccountsFor (st : Status) (s : Spec) : Prop where
  received : st.received = s.tally.received
  responses : st.responses = s.responses
  state : st.state = s.tally.state s.required

/-- While the task is open, a digest that fits its approvers stands beside their count. -/
def Task.Accounted (t : Task) : Prop :=
  t.status.state.isFinal = false →
    t.digest? = some (.ofApprovers t.spec.approvers) → t.status.AccountsFor t.spec

theorem Spec.freshStatus_accountsFor (s : Spec) (start : Option Instant) :
    (s.freshStatus start).AccountsFor s := ⟨rfl, rfl, rfl⟩

namespace Pass
variable {t : Task} {start now : Instant} {limit : Span}

theorem count_accountsFor (hopen : t.status.state.isFinal = false) (h : t.Accounted) :
    (count t).1.status.AccountsFor t.spec := by
  by_cases hdigest : t.digest? = some (Digest.ofApprovers t.spec.approvers)
  · rw [count_of_digest hdigest]
    exact h hopen hdigest
  · rw [count_of_digest_ne hdigest]
    simp only [Task.withDigest, Spec.aggregate, hopen, Bool.false_eq_true, if_false]
    exact t.spec.freshStatus_accountsFor _

theorem accounted_withStart (h : t.Accounted) : (withStart t now).Accounted := by
  intro hopen hdigest
  have haccounts := h hopen hdigest
  exact ⟨haccounts.received, haccounts.responses, haccounts.state⟩

/-- What a pass makes of an open task: the count of its votes, or a rejection if the count leaves
the task pending and its time is up. -/
structure Settles (t : Task) (now : Instant) (limit : Span) (st : Status) : Prop where
  received : st.received = t.spec.tally.received
  responses : st.responses = t.spec.responses
  state : st.state =
    if t.spec.tally.state t.spec.required = .pending ∧
        Deadline.exceeded (startOf t now) now limit = true then .rejected
    else t.spec.tally.state t.spec.required

theorem plan_settles (hopen : t.status.state.isFinal = false) (h : t.Accounted) :
    Settles t now limit (plan t now limit).task.status := by
  have hcount : (count (withStart t now)).1.status.AccountsFor t.spec :=
    count_accountsFor hopen (accounted_withStart h)
  rw [plan_task, if_neg (by simp [hopen])]
  unfold expire
  rw [hcount.state]
  by_cases hpending : t.spec.tally.state t.spec.required = .pending
  · by_cases hlate : Deadline.exceeded (startOf t now) now limit = true
    · simp only [hpending, hlate, decide_true, Bool.and_self, if_true]
      exact ⟨hcount.received, hcount.responses, by simp [hpending, hlate]⟩
    · simp only [hpending, hlate, decide_true, Bool.true_and, Bool.false_eq_true, if_false]
      exact ⟨hcount.received, hcount.responses, by simp [hcount.state, hlate]⟩
  · simp only [hpending, decide_false, Bool.false_and, Bool.false_eq_true, if_false]
    exact ⟨hcount.received, hcount.responses, by simp [hcount.state, hpending]⟩

/-- What is open after a pass has been counted by it. -/
theorem accounted_reported (h : t.Accounted) :
    (Store.reported t (plan t now limit).task).Accounted := by
  intro hopen' _
  have hopen : t.status.state.isFinal = false := by
    by_contra hfinal
    rw [Bool.not_eq_false] at hfinal
    change (plan t now limit).task.status.state.isFinal = false at hopen'
    rw [plan_task, if_pos hfinal] at hopen'
    cases hfinal.symm.trans hopen'
  have hsettles : Settles t now limit (plan t now limit).task.status := plan_settles hopen h
  refine ⟨hsettles.received, hsettles.responses, ?_⟩
  change (plan t now limit).task.status.state = _
  have hstate := hsettles.state
  split at hstate
  · change (plan t now limit).task.status.state.isFinal = false at hopen'
    rw [hstate] at hopen'
    cases hopen'
  · exact hstate

end Pass

/-- A direct edit of the task at `key` that does not carry the digest of the list it writes, or a
write that leaves the task alone. -/
def Store.PlainEdit (key : String) (s s' : Store) : Prop :=
  (s.DirectEdit s' ∧ ∀ t, s'.get? key = some t →
    t.digest? ≠ some (.ofApprovers t.spec.approvers)) ∨ s'.get? key = s.get? key

namespace Store
variable {key : String} {s s' : Store} {t : Task}

theorem PlainEdit.otherWrite (h : s.PlainEdit key s') : s.OtherWrite key s' := h.imp_left And.left

theorem PlainEdit.accounted (h : s.PlainEdit key s') (hs : s.Holds key Task.Accounted) :
    s'.Holds key Task.Accounted := by
  rcases h with ⟨-, hplain⟩ | hsame
  · intro t ht _ hdigest
    exact absurd hdigest (hplain t ht)
  · exact hs.of_get?_eq hsame

end Store

theorem TaskParams.accounted_task {p : TaskParams} {name : String} {now : Instant}
    (hpending : p.spec.AllPending) (version : Nat) :
    ({ p.task name now with metadata.version := version } : Task).Accounted := by
  intro _ _
  have hfresh := p.spec.freshStatus_accountsFor none
  rw [hpending.freshStatus_eq] at hfresh
  exact hfresh

/-- What is true of every new task is true of the one that has just been created. -/
theorem Store.holds_of_built {P : Task → Prop} {p : TaskParams} {name : String} {now : Instant}
    {t₀ t₁ : Task} {s s₀ : Store} (hbuilt : p.toTask name now = .ok t₀)
    (hcreated : s.create t₀ = .ok (t₁, s₀))
    (hP : p.spec.WellFormed → p.spec.AllPending →
      P { p.task name now with metadata.version := 1 }) : s₀.Holds t₀.key P := by
  obtain ⟨hvalid, hpending, rfl⟩ := TaskParams.toTask_eq_ok_iff.mp hbuilt
  have hstored := get?_of_create hcreated
  obtain ⟨-, rfl, -⟩ := create_eq_ok_iff.mp hcreated
  exact .of_get? hstored (hP hvalid hpending)

namespace Traffic
variable {key : String} {s : Store} {w w' : Traffic}

/-- Passes over the task at `key`, whenever and with whatever time limit. -/
def PassOver (key : String) : Job → Prop
  | .pass k _ _ => k = key
  | .vote .. => False

theorem PassOver.key_eq {j : Job} (h : PassOver key j) : j.key = key := by
  cases j with
  | vote => exact h.elim
  | pass => exact h

theorem Run.accounted (h : Run (PassOver key) (Store.PlainEdit key) (start s) w)
    (hs : s.Holds key Task.Accounted) (hroom : w.store.HasRoom key) :
    w.store.Holds key Task.Accounted := by
  refine h.preserves (P := Store.Holds key Task.Accounted) (fun j hj => hj.key_eq) hroom
    (fun s s' hwrite => hwrite.otherWrite.advances) ?_ (fun s s' hwrite => hwrite.accounted) hs
  intro j s s' hj hlands hs
  cases j with
  | vote => exact hj.elim
  | pass k now limit =>
    obtain rfl : k = key := hj
    obtain ⟨t, cur, hcur, -, rfl, rfl⟩ := hlands
    exact hs.put fun _ => Pass.accounted_reported (hs cur hcur)

/-- Where nobody has written a list together with its own digest, the next pass over an open task
that ends well has counted every vote, and rejects the task only for a vote or for its time. -/
theorem next_pass_accounts {p : TaskParams} {name : String} {created now : Instant} {limit : Span}
    {report : Pass.Report} {t₀ t₁ t : Task} {s₀ : Store}
    (hbuilt : p.toTask name created = .ok t₀) (hcreated : s.create t₀ = .ok (t₁, s₀))
    (hrun : Run (PassOver t₀.key) (Store.PlainEdit t₀.key) (start s₀) w)
    (hroom : w.store.HasRoom t₀.key) (ht : w.store.get? t₀.key = some t)
    (hopen : t.status.state.isFinal = false) (hends : PassEnds t₀.key now limit report w w') :
    ∃ t', w'.store.get? t₀.key = some t' ∧ t'.spec = t.spec ∧
      t'.status.received = (t'.spec.aggregate none).received ∧
      t'.status.responses = (t'.spec.aggregate none).responses ∧
      t'.status.state =
        if t'.spec.tally.state t'.spec.required = .pending ∧
            Deadline.exceeded (Pass.startOf t now) now limit = true then .rejected
        else t'.spec.tally.state t'.spec.required := by
  have hstart : s₀.Holds t₀.key Task.Accounted :=
    Store.holds_of_built hbuilt hcreated fun _ hpending => TaskParams.accounted_task hpending 1
  have haccounted : t.Accounted := hrun.accounted hstart hroom t ht
  obtain ⟨u, t', hu, ht', hspec, -, hstatus⟩ := hends.planned hrun
    (fun j hj s s' hwrite => hj.key_eq ▸ hwrite.otherWrite.advances) hroom
  obtain rfl : t = u := Option.some.inj (ht.symm.trans hu)
  have hsettles : Pass.Settles t now limit t'.status := hstatus ▸ Pass.plan_settles hopen haccounted
  refine ⟨t', ht', hspec, ?_, ?_, ?_⟩
  · rw [hspec]
    exact hsettles.received
  · rw [hspec]
    exact hsettles.responses
  · rw [hspec]
    exact hsettles.state

theorem soleParams_toTask :
    soleParams.toTask "gate" Draft.epoch = .ok (soleParams.task "gate" Draft.epoch) := rfl

theorem create_soleTask : Store.empty.create (soleParams.task "gate" Draft.epoch) =
    .ok (soleTask, Store.empty.put soleTask) := rfl

/-- The user's approval is written without a digest, and the next pass counts it. -/
theorem plain_approval_is_accounted :
    ∃ w w' report t, Run (PassOver "gate") (Store.PlainEdit "gate")
        (start (Store.empty.put soleTask)) w ∧
      PassEnds "gate" Draft.epoch .zero report w w' ∧ w'.store.get? "gate" = some t ∧
      t.status.received = 1 ∧ t.status.state = .approved := by
  let s₁ := Store.empty.put soleTask
  let edited := Store.edited soleTask bareApproval
  let s₂ := s₁.put edited
  have hedited : s₂.get? "gate" = some edited :=
    (Store.get?_put s₁ edited "gate").trans (if_pos rfl)
  have hplain : s₁.PlainEdit "gate" s₂ := by
    refine .inl ⟨⟨.update ⟨"ann", []⟩ bareApproval soleTask, soleTask, bareApproval, bareApproval,
      edited, rfl, rfl, rfl, rfl, bareApproval_allowed, rfl, rfl⟩, fun t ht => ?_⟩
    obtain rfl : edited = t := Option.some.inj (hedited.symm.trans ht)
    have hnone : edited.digest? = none := rfl
    simp [hnone]
  have hedit : Run (PassOver "gate") (Store.PlainEdit "gate") (start s₁) ⟨s₂, []⟩ :=
    .single (.write (start s₁) s₂ hplain)
  have hchanged : (Pass.plan edited Draft.epoch .zero).changed = true :=
    Pass.changed_of_unstarted rfl
  have hjob : PassOver "gate" (.pass "gate" Draft.epoch .zero) := rfl
  obtain ⟨w, w', report, hrun, hsame, hends, -⟩ :=
    RunThrough.pass_ends_alone (w := ⟨s₂, []⟩) (Store.PlainEdit "gate") hjob hedited hchanged
  have hstored : w.store.get? "gate" = some edited := hsame ▸ hedited
  have hroom : w.store.HasRoom "gate" := by
    intro t ht
    obtain rfl : edited = t := Option.some.inj (hstored.symm.trans ht)
    decide
  obtain ⟨t, ht, hspec, hreceived, -, hstate⟩ := next_pass_accounts soleParams_toTask
    create_soleTask (hedit.trans hrun.run) hroom hstored rfl hends
  refine ⟨w, w', report, t, hedit.trans hrun.run, hends, ht, ?_, ?_⟩
  · rw [hreceived, hspec]
    decide
  · rw [hstate, hspec]
    decide

/-- The user's approval, written with the digest of the list that it makes. -/
def stampedApproval : Task :=
  bareApproval.withDigest (.ofApprovers bareApproval.spec.approvers)

theorem stampedApproval_allowed :
    (Admission.respond (.update ⟨"ann", []⟩ stampedApproval soleTask)).allowed = true :=
  Admission.update_allowed_of_authorized rfl rfl (by decide) soleApproval_authorized

/-- The edit is admitted, and the next pass finds its digest in order and counts nothing. -/
theorem digest_of_own_vote_hides_it :
    ∃ t₀ s₁ w w' report t, soleParams.toTask "gate" Draft.epoch = .ok t₀ ∧
      Store.empty.create t₀ = .ok (soleTask, s₁) ∧
      Run (PassOver "gate") Store.DirectEdit (start s₁) w ∧
      PassEnds "gate" Draft.epoch .zero report w w' ∧ w'.store.get? "gate" = some t ∧
      t.status.state = .pending ∧ t.status.received = 0 ∧
      t.spec.tally.state t.spec.required = .approved ∧ (t.spec.aggregate none).received = 1 := by
  let s₁ := Store.empty.put soleTask
  let edited := Store.edited soleTask stampedApproval
  let s₂ := s₁.put edited
  have hedited : s₂.get? "gate" = some edited :=
    (Store.get?_put s₁ edited "gate").trans (if_pos rfl)
  have hdirect : s₁.DirectEdit s₂ :=
    ⟨.update ⟨"ann", []⟩ stampedApproval soleTask, soleTask, stampedApproval, stampedApproval,
      edited, rfl, rfl, rfl, rfl, stampedApproval_allowed, rfl, rfl⟩
  have hedit : Run (PassOver "gate") Store.DirectEdit (start s₁) ⟨s₂, []⟩ :=
    .single (.write (start s₁) s₂ hdirect)
  have hdigest : edited.digest? = some (.ofApprovers edited.spec.approvers) :=
    Task.digest?_withDigest bareApproval _
  have hstatus : (Pass.plan edited Draft.epoch .zero).task.status = _ :=
    Pass.plan_status_of_digest rfl hdigest
  have hjob : PassOver "gate" (.pass "gate" Draft.epoch .zero) := rfl
  obtain ⟨w, w', report, hrun, -, hends, hstore⟩ := RunThrough.pass_ends_alone (w := ⟨s₂, []⟩)
    Store.DirectEdit hjob hedited (Pass.changed_of_unstarted rfl)
  have hstored : w'.store.get? "gate" =
      some (Store.reported edited (Pass.plan edited Draft.epoch .zero).task) := by
    rw [hstore, Store.get?_put]
    exact if_pos rfl
  refine ⟨_, s₁, w, w', report, _, soleParams_toTask, create_soleTask, hedit.trans hrun.run, hends,
    hstored, ?_, ?_, ?_, ?_⟩
  · rw [Store.status_reported, hstatus]
    rfl
  · rw [Store.status_reported, hstatus]
    rfl
  · rw [Store.spec_reported]
    decide
  · rw [Store.spec_reported]
    decide

end Traffic
end Quorum
