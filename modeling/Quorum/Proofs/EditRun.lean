import Mathlib.Logic.Relation
import Quorum.Proofs.OwnVote
import Quorum.Proofs.Record

/-!
# Runs of admitted edits

A run starts with the specification of an admitted creation and goes on by admitted updates, each
against the specification it replaces. Rejections are never taken back in it
(`EditRun.rejected_of_rejected`): a rejection stands with somebody who can no longer vote. The one
exception, a group's vote that its members outvote one by one, cannot come up because a group's
rejection is always carried by a member's or by a group without members (`Spec.Backed`).
-/
namespace Quorum

/-- The specification of some admitted creation, by anyone and with any status. -/
def Spec.Created (s : Spec) : Prop :=
  ∃ (r : Admission.Request) (t : Task), r.operation = .create ∧
    Task.decoder.ofJson r.object = .ok t ∧ (Admission.respond r).allowed = true ∧ t.spec = s

/-- `new` replaces `old` by an admitted update of `p`, whatever else the two tasks hold. -/
def Spec.EditedBy (p : Principal) (old new : Spec) : Prop :=
  ∃ (r : Admission.Request) (t u : Task), r.operation = .update ∧ r.user = p ∧
    Task.decoder.ofJson (r.oldObject.getD .null) = .ok t ∧
    Task.decoder.ofJson r.object = .ok u ∧ (Admission.respond r).allowed = true ∧
    t.spec = old ∧ u.spec = new

/-- `new` replaces `old` by an admitted update of somebody. -/
def Spec.Edit (old new : Spec) : Prop := ∃ p, old.EditedBy p new

/-- Any number of updates, by anyone. Passes are left out of it, since they leave the specification
as it is. -/
abbrev EditRun : Spec → Spec → Prop := Relation.ReflTransGen Spec.Edit

theorem Spec.EditedBy.cleared {p : Principal} {old new : Spec} (h : old.EditedBy p new) :
    ∃ t : Task, t.spec = old ∧ Guard.Cleared t new p ∧ new.WellFormed := by
  obtain ⟨r, t, u, hop, rfl, ht, hu, hallowed, rfl, rfl⟩ := h
  obtain ⟨hvalid, hcleared⟩ := (Admission.update_allowed_iff hop ht hu).mp hallowed
  exact ⟨t, rfl, hcleared, hvalid⟩

theorem Spec.Created.wellFormed_allPending {s : Spec} (h : s.Created) :
    s.WellFormed ∧ s.AllPending := by
  obtain ⟨r, t, hop, ht, hallowed, rfl⟩ := h
  exact (Admission.create_allowed_iff hop ht).mp hallowed

/-- A group's rejection has a member's beside it unless the group keeps no records. -/
def Approver.Backed (a : Approver) : Prop :=
  a.kind = .group → a.vote = .reject → a.members = [] ∨ ∃ m ∈ a.members, m.vote = .reject

/-- Every rejection of a group with records is some member's. It holds of whatever has been created
and edited, since votes in groups are cast with the record. -/
def Spec.Backed (s : Spec) : Prop := ∀ a ∈ s.approvers, a.Backed

namespace Guard.Edited
variable {p : Principal} {old : Task} {new : Spec} {o n : Approver}

theorem name_ne_of_reject (e : Edited p old new o n) (hkind : n.kind = .user)
    (hvote : o.vote = .reject) : n.name ≠ p.username := by
  intro hname
  refine e.cleared.not_rejected (mem_recorded_of_spec ?_)
  exact mem_recordedInSpec_of_user e.old_mem (e.kind_eq.trans hkind) (e.name_eq.trans hname)
    (by rw [hvote]; rfl)

theorem member_name_ne_of_reject (e : Edited p old new o n) (hkind : n.kind = .group) {m : Member}
    (hm : m ∈ o.members) (hvote : m.vote = .reject) : m.name ≠ p.username := by
  intro hname
  refine e.cleared.not_rejected (mem_recorded_of_spec ?_)
  exact mem_recordedInSpec_of_member e.old_mem (e.kind_eq.trans hkind) hm hname
    (by rw [hvote]; rfl)

theorem not_claims_of_reject (e : Edited p old new o n) (hkind : n.kind = .group)
    (hmembers : o.members = []) (hvote : o.vote = .reject) : p.claims n.name = false := by
  by_contra hclaims
  rw [Bool.not_eq_false] at hclaims
  refine e.cleared.not_rejected (mem_recorded_of_spec ?_)
  exact mem_recordedInSpec_of_claim e.old_mem (e.kind_eq.trans hkind) hmembers
    (e.name_eq ▸ hclaims) (by rw [hvote]; rfl)

/-- A member who rejected stays in the group with that vote. -/
theorem rejecting_member_stays (e : Edited p old new o n) (hkind : n.kind = .group) {m : Member}
    (hm : m ∈ o.members) (hvote : m.vote = .reject) : m ∈ n.members :=
  (e.foreign_members (e.member_name_ne_of_reject hkind hm hvote)).mp hm

/-- Nobody joins a group without members once it has rejected. -/
theorem members_eq_nil_of_reject (e : Edited p old new o n) (hkind : n.kind = .group)
    (hmembers : o.members = []) (hvote : o.vote = .reject) : n.members = [] := by
  rw [List.eq_nil_iff_forall_not_mem]
  intro m hm
  have hclaims := (e.joined hm (by simp [hmembers])).2
  rw [e.not_claims_of_reject hkind hmembers hvote] at hclaims
  cases hclaims

theorem vote_eq_of_reject (e : Edited p old new o n) (hkind : n.kind = .group)
    (hmembers : o.members = []) (hvote : o.vote = .reject) : n.vote = .reject := by
  by_contra hmoved
  rcases (e.group_vote hkind (by rw [hvote]; exact hmoved)).1 with hclaims | ⟨m, hm, -⟩
  · rw [e.not_claims_of_reject hkind hmembers hvote] at hclaims
    cases hclaims
  · simp [hmembers] at hm

theorem backed (e : Edited p old new o n) (hbacked : o.Backed) : n.Backed := by
  intro hkind hreject
  by_cases hvote : n.vote = o.vote
  · have hold : o.vote = .reject := hvote ▸ hreject
    rcases hbacked (e.kind_eq.trans hkind) hold with hmembers | ⟨m, hm, hm_reject⟩
    · exact .inl (e.members_eq_nil_of_reject hkind hmembers hold)
    · exact .inr ⟨m, e.rejecting_member_stays hkind hm hm_reject, hm_reject⟩
  · rcases (e.group_vote hkind hvote).2 with hmembers | ⟨hm, -⟩
    · -- A member who joins in the same edit casts the same vote.
      rcases List.eq_nil_or_concat n.members with hnil | ⟨ms, m, hconcat⟩
      · exact .inl hnil
      · have hm : m ∈ n.members := by simp [hconcat]
        obtain ⟨key, v, -, hsingle⟩ := e.cleared.votesAt e.valid
        have hat := hsingle o e.old_mem n e.new_mem e.key_eq
        have hmv := (hat.members m hm (by simp [hmembers])).2
        exact .inr ⟨m, hm, by rw [hmv, ← (hat.vote hvote).2, hreject]⟩
    · exact .inr ⟨_, hm, hreject⟩

theorem rejects (e : Edited p old new o n) (hbacked : o.Backed) (h : o.rejects = true) :
    n.rejects = true := by
  simp only [Approver.rejects, Bool.or_eq_true, Bool.and_eq_true, decide_eq_true_eq,
    List.any_eq_true] at h ⊢
  rcases e.wellFormed.named with ⟨hkind, -⟩ | ⟨hkind, -⟩
  · rcases h with hvote | ⟨hgroup, -⟩
    · have hname := e.name_ne_of_reject hkind hvote
      refine .inl (by_contra fun hmoved => hname (e.user_vote hkind ?_))
      rw [hvote]
      exact hmoved
    · rw [e.kind_eq, hkind] at hgroup
      cases hgroup
  · have hmember : (∃ m ∈ o.members, m.vote = .reject) →
        n.vote = .reject ∨ n.kind = .group ∧ ∃ m ∈ n.members, m.vote = .reject := by
      intro h
      obtain ⟨m, hm, hvote⟩ := h
      exact .inr ⟨hkind, m, e.rejecting_member_stays hkind hm hvote, hvote⟩
    rcases h with hvote | ⟨-, m, hm, hvote⟩
    · rcases hbacked (e.kind_eq.trans hkind) hvote with hmembers | hmembers
      · exact .inl (e.vote_eq_of_reject hkind hmembers hvote)
      · exact hmember hmembers
    · exact hmember ⟨m, hm, hvote⟩

end Guard.Edited

namespace Spec.Edit
variable {old new : Spec}

/-- Nothing is edited any more once enough have approved. -/
theorem tally_open (h : old.Edit new) : old.tally.meets old.required = false := by
  obtain ⟨p, h⟩ := h
  obtain ⟨t, rfl, hcleared, -⟩ := h.cleared
  exact hcleared.tally_open

theorem backed (h : old.Edit new) (hbacked : old.Backed) : new.Backed := by
  obtain ⟨p, h⟩ := h
  obtain ⟨t, rfl, hcleared, hvalid⟩ := h.cleared
  intro n hn
  obtain ⟨o, ho, hkey⟩ := hcleared.sameShape.old_of_new hn
  exact Guard.Edited.backed ⟨hcleared, hvalid, ho, hn, hkey⟩ (hbacked o ho)

theorem rejected (h : old.Edit new) (hbacked : old.Backed) (hrejected : old.tally.rejected = true) :
    new.tally.rejected = true := by
  obtain ⟨p, h⟩ := h
  obtain ⟨t, rfl, hcleared, hvalid⟩ := h.cleared
  simp only [tally, List.any_eq_true] at hrejected ⊢
  obtain ⟨o, ho, hreject⟩ := hrejected
  obtain ⟨n, hn, hkey⟩ := hcleared.sameShape.new_of_old ho
  exact ⟨n, hn, Guard.Edited.rejects ⟨hcleared, hvalid, ho, hn, hkey⟩ (hbacked o ho) hreject⟩

end Spec.Edit

theorem Spec.AllPending.backed {s : Spec} (h : s.AllPending) : s.Backed := by
  intro a ha _ hreject
  rw [h.approvers_pending a ha] at hreject
  cases hreject

namespace EditRun
variable {s₀ s₁ s₂ : Spec}

theorem backed (h : EditRun s₀ s₁) (hbacked : s₀.Backed) : s₁.Backed := by
  induction h with
  | refl => exact hbacked
  | tail _ hedit ih => exact hedit.backed ih

theorem rejected_of_rejected (h : EditRun s₀ s₁) (hbacked : s₀.Backed)
    (hrejected : s₀.tally.rejected = true) : s₁.tally.rejected = true := by
  induction h with
  | refl => exact hrejected
  | tail hrun hedit ih => exact hedit.rejected (backed hrun hbacked) ih

theorem eq_of_approved (h : EditRun s₀ s₁) (happroved : s₀.tally.meets s₀.required = true) :
    s₁ = s₀ := by
  rcases h.cases_head with rfl | ⟨s, hedit, -⟩
  · rfl
  · rw [hedit.tally_open] at happroved
    cases happroved

end EditRun

/-- What the votes have decided at some point of a run is decided for the rest of it. -/
theorem outcome_stands {s₀ s₁ s₂ : Spec} (hcreated : s₀.Created) (hbefore : EditRun s₀ s₁)
    (hafter : EditRun s₁ s₂) :
    ((s₁.tally.state s₁.required).isFinal = true →
      s₂.tally.state s₂.required = s₁.tally.state s₁.required) ∧
    (s₁.tally.rejected = true → s₂.tally.rejected = true) := by
  have hbacked : s₁.Backed := hbefore.backed hcreated.wellFormed_allPending.2.backed
  refine ⟨fun hfinal => ?_, hafter.rejected_of_rejected hbacked⟩
  by_cases hrejected : s₁.tally.rejected = true
  · simp [Tally.state, hrejected, hafter.rejected_of_rejected hbacked hrejected]
  · have happroved : s₁.tally.meets s₁.required = true := by
      by_contra hopen
      simp [Tally.state, hrejected, hopen, Outcome.isFinal] at hfinal
    rw [hafter.eq_of_approved happroved]

namespace Admission

/-- The gate's user agrees after its group has rejected. -/
def lateApproval : Request :=
  .update ⟨"ann", []⟩ (guardedGate .approve .reject .reject)
    (guardedGate .pending .reject .reject)

theorem lateApproval_authorized : authorize (guardedGate .pending .reject .reject)
    (guardedGate .approve .reject .reject).spec ⟨"ann", []⟩ = .allow := by
  have hchanges : (guardedGate .pending .reject .reject).spec.changesTo
      (guardedGate .approve .reject .reject).spec = [.vote ⟨.user, "ann"⟩ .approve] := by cbv
  refine Guard.authorize_eq_allow_iff.mpr
    (Guard.cleared_of_vote .user .approve hchanges ?_ ?_ ?_ ?_ ?_ ?_ ?_ ?_) <;> decide

end Admission

open Admission in
/-- The threshold is reached after a rejection, and the rejection stands. -/
theorem lateApproval_leaves_rejected :
    EditRun (guardedGate .pending .reject .reject).spec
        (guardedGate .approve .reject .reject).spec ∧
      (guardedGate .approve .reject .reject).spec.tally.meets 1 = true ∧
      (guardedGate .approve .reject .reject).spec.tally.state 1 = .rejected := by
  have hcreated : (guardedGate .pending .pending .pending).spec.Created :=
    ⟨.create ⟨"eve", []⟩ (guardedGate .pending .pending .pending), _, rfl, rfl,
      by decide, rfl⟩
  have hreject : (guardedGate .pending .pending .pending).spec.Edit
      (guardedGate .pending .reject .reject).spec :=
    ⟨⟨"bob", []⟩, memberRejection, _, _, rfl, rfl, rfl, rfl,
      update_allowed_of_authorized rfl rfl (by decide) memberRejection_authorized, rfl,
      rfl⟩
  have hlate : (guardedGate .pending .reject .reject).spec.Edit
      (guardedGate .approve .reject .reject).spec :=
    ⟨⟨"ann", []⟩, lateApproval, _, _, rfl, rfl, rfl, rfl,
      update_allowed_of_authorized rfl rfl (by decide) lateApproval_authorized, rfl, rfl⟩
  exact ⟨.single hlate, by decide,
    (outcome_stands hcreated (.single hreject) (.single hlate)).1 (by decide)⟩

end Quorum
