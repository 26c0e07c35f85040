import Quorum.Proofs.EditRun
import Quorum.Proofs.Tally

/-!
# Decisions move forward

A person votes in their user entry and in their records of groups (`Spec.ownSlots`). Over a run of
admitted edits such a slot stays, moves only by the person's own edits, and only from undecided to
decided or from approval to rejection (`Vote.Forward`). At most one of a person's slots approves,
and whoever has rejected edits no more (`decisions_only_move_forward`).
-/
namespace Quorum

/-- A vote may stay, or become a decision unless it is a rejection. -/
def Vote.Forward (v w : Vote) : Prop := w = v ∨ v ≠ .reject ∧ w.isDecided = true

namespace Vote.Forward
variable {v w x : Vote}

theorem refl (v : Vote) : v.Forward v := .inl rfl

theorem trans (hvw : v.Forward w) (hwx : w.Forward x) : v.Forward x := by
  rcases hwx with rfl | ⟨hw, hx⟩
  · exact hvw
  · rcases hvw with rfl | ⟨hv, -⟩
    · exact .inr ⟨hw, hx⟩
    · exact .inr ⟨hv, hx⟩

theorem isDecided (h : v.Forward w) (hv : v.isDecided = true) : w.isDecided = true := by
  rcases h with rfl | ⟨-, hw⟩
  · exact hv
  · exact hw

theorem eq_reject (h : v.Forward w) (hv : v = .reject) : w = .reject := by
  rcases h with rfl | ⟨hne, -⟩
  · exact hv
  · exact absurd hv hne

/-- Only a rejection takes the place of an approval. -/
theorem eq_reject_of_approve (h : Vote.approve.Forward w) (hw : w ≠ .approve) : w = .reject := by
  rcases h with rfl | ⟨-, hdecided⟩
  · exact absurd rfl hw
  · cases w with
    | reject => rfl
    | approve => exact absurd rfl hw
    | pending => cases hdecided
    | other text => cases hdecided

end Vote.Forward

/-- The votes of `name` in one approver: that of the user entry, or those on record in the group. -/
def Approver.ownVotes (a : Approver) (name : String) : List Vote :=
  match a.kind with
  | .user => if a.name = name then [a.vote] else []
  | .group => (a.members.filter (·.name = name)).map (·.vote)
  | .other _ => []

/-- The votes of `name`, each with the approver that it stands in. -/
def Spec.ownSlots (s : Spec) (name : String) : List (Approver.Key × Vote) :=
  s.approvers.flatMap fun a => (a.ownVotes name).map fun v => (a.key, v)

theorem Approver.mem_ownVotes_iff {a : Approver} {name : String} {v : Vote} :
    v ∈ a.ownVotes name ↔
      a.kind = .user ∧ a.name = name ∧ a.vote = v ∨ a.kind = .group ∧ ⟨name, v⟩ ∈ a.members := by
  unfold ownVotes
  cases hkind : a.kind with
  | user =>
    by_cases hname : a.name = name
    · simp [hname, eq_comm]
    · simp [hname]
  | group =>
    simp only [List.mem_map, List.mem_filter, decide_eq_true_eq, reduceCtorEq, false_and, true_and,
      false_or]
    constructor
    · intro h
      obtain ⟨⟨n, v⟩, ⟨hm, rfl⟩, rfl⟩ := h
      exact hm
    · intro hm
      exact ⟨_, ⟨hm, rfl⟩, rfl⟩
  | other text => simp

theorem length_le_one_of_nodup {as : List α} (hnodup : as.Nodup)
    (heq : ∀ a ∈ as, ∀ b ∈ as, a = b) : as.length ≤ 1 := by
  cases as with
  | nil => exact Nat.zero_le 1
  | cons a as =>
    have hall : as = List.replicate as.length a := List.eq_replicate_of_mem fun b hb =>
      heq b (List.mem_cons_of_mem a hb) a List.mem_cons_self
    rw [hall, ← List.replicate_succ, List.nodup_replicate] at hnodup
    exact hnodup

theorem Approver.WellFormed.length_ownVotes_le {a : Approver} (h : a.WellFormed) (name : String) :
    (a.ownVotes name).length ≤ 1 := by
  unfold ownVotes
  cases a.kind with
  | user =>
    by_cases hname : a.name = name
    · simp [hname]
    · simp [hname]
  | group =>
    have hdistinct : ((a.members.filter (·.name = name)).map (·.name)).Nodup :=
      h.members_distinct.sublist (List.filter_sublist.map _)
    have hsame : ∀ n ∈ (a.members.filter (·.name = name)).map (·.name), n = name := by
      intro n hn
      obtain ⟨m, hm, rfl⟩ := List.mem_map.mp hn
      simpa using (List.mem_filter.mp hm).2
    rw [List.length_map, ← List.length_map (·.name)]
    exact length_le_one_of_nodup hdistinct fun n hn n' hn' => (hsame n hn).trans (hsame n' hn').symm
  | other text => exact Nat.zero_le 1

namespace Spec
variable {s : Spec} {name : String} {key : Approver.Key} {v : Vote}

theorem mem_ownSlots_iff :
    (key, v) ∈ s.ownSlots name ↔ ∃ a ∈ s.approvers, a.key = key ∧ v ∈ a.ownVotes name := by
  simp only [ownSlots, List.mem_flatMap, List.mem_map, Prod.mk.injEq]
  constructor
  · intro h
    obtain ⟨a, ha, w, hw, hkey, rfl⟩ := h
    exact ⟨a, ha, hkey, hw⟩
  · intro h
    obtain ⟨a, ha, hkey, hv⟩ := h
    exact ⟨a, ha, v, hv, hkey, rfl⟩

theorem mem_approving_iff_slot :
    name ∈ s.tally.approving ↔ ∃ key, (key, .approve) ∈ s.ownSlots name := by
  simp only [mem_approving_iff, ApprovedBy, mem_ownSlots_iff, Approver.mem_ownVotes_iff,
    Approver.ApprovedBy]
  constructor
  · intro h
    obtain ⟨a, ha, happroved⟩ := h
    exact ⟨a.key, a, ha, rfl, happroved⟩
  · intro h
    obtain ⟨_, a, ha, -, happroved⟩ := h
    exact ⟨a, ha, happroved⟩

/-- A person has no two slots in one approver. -/
theorem WellFormed.ownSlots_distinct (h : s.WellFormed) (name : String) :
    ((s.ownSlots name).map Prod.fst).Nodup := by
  have hkeys (a : Approver) :
      ((a.ownVotes name).map fun v => (a.key, v)).map Prod.fst =
        List.replicate (a.ownVotes name).length a.key := by
    rw [List.map_map]
    exact List.map_const' ..
  rw [ownSlots, List.map_flatMap, List.nodup_flatMap]
  simp only [hkeys, List.nodup_replicate]
  constructor
  · intro a ha
    exact (h.approvers_wellFormed a ha).length_ownVotes_le name
  · have hdistinct := List.pairwise_map.mp (List.nodup_iff_pairwise_ne.mp h.approvers_distinct)
    refine hdistinct.imp fun {a b} hne key hkey hkey' => hne ?_
    exact (List.eq_of_mem_replicate hkey).symm.trans (List.eq_of_mem_replicate hkey')

theorem mem_recordedInSpec_of_slot {p : Principal} {r : Outcome}
    (h : (key, v) ∈ s.ownSlots p.username) (hv : v.outcome? = some r) :
    r ∈ Guard.recordedInSpec s p := by
  obtain ⟨a, ha, -, hmem⟩ := mem_ownSlots_iff.mp h
  rcases Approver.mem_ownVotes_iff.mp hmem with ⟨hkind, hname, rfl⟩ | ⟨hkind, hm⟩
  · exact Guard.mem_recordedInSpec_of_user ha hkind hname hv
  · exact Guard.mem_recordedInSpec_of_member ha hkind hm rfl hv

end Spec

namespace Guard.Edited
variable {p : Principal} {old : Task} {new : Spec} {o n : Approver} {name : String} {v : Vote}

theorem mem_ownVotes_foreign (e : Edited p old new o n) (hname : name ≠ p.username) :
    v ∈ o.ownVotes name ↔ v ∈ n.ownVotes name := by
  rw [Approver.mem_ownVotes_iff, Approver.mem_ownVotes_iff, e.kind_eq, e.name_eq,
    e.foreign_members (m := ⟨name, v⟩) hname]
  refine or_congr_left (and_congr_right fun hkind => and_congr_right fun hentry => ?_)
  rw [(e.ownVote.foreign_user hkind (hentry.trans_ne hname)).1]

theorem vote_forward (e : Edited p old new o n) (hkind : n.kind = .user) :
    o.vote.Forward n.vote := by
  by_cases hvote : n.vote = o.vote
  · exact .inl hvote
  · refine .inr ⟨fun hreject => ?_, ?_⟩
    · exact e.name_ne_of_reject hkind hreject (e.user_vote hkind hvote)
    · obtain ⟨slot, -, hmem⟩ := e.mem_votes_of_vote hvote
      exact e.cleared.votes_decided _ hmem

theorem member_forward (e : Edited p old new o n) (hkind : n.kind = .group) {m : Member}
    (hm : m ∈ o.members) : ∃ w, ⟨m.name, w⟩ ∈ n.members ∧ m.vote.Forward w := by
  obtain ⟨⟨name, w⟩, hmem, hname⟩ := e.keepsMembers.kept m hm
  obtain rfl : name = m.name := hname
  refine ⟨w, hmem, ?_⟩
  by_cases hold : ⟨m.name, w⟩ ∈ o.members
  · have hsame : m = ⟨m.name, w⟩ :=
      List.inj_on_of_nodup_map e.keepsMembers.old_distinct hm hold rfl
    exact .inl (congrArg Member.vote hsame).symm
  · obtain ⟨hname, hvotes, -⟩ := e.member_moved hmem hold
    refine .inr ⟨fun hreject => ?_, e.cleared.votes_decided _ hvotes⟩
    exact e.member_name_ne_of_reject hkind hm hreject hname

theorem ownVotes_forward (e : Edited p old new o n) (hv : v ∈ o.ownVotes name) :
    ∃ w ∈ n.ownVotes name, v.Forward w := by
  rcases Approver.mem_ownVotes_iff.mp hv with ⟨hkind, hname, rfl⟩ | ⟨hkind, hm⟩
  · rw [e.kind_eq] at hkind
    refine ⟨n.vote, Approver.mem_ownVotes_iff.mpr (.inl ⟨hkind, ?_, rfl⟩), e.vote_forward hkind⟩
    rw [← e.name_eq, hname]
  · rw [e.kind_eq] at hkind
    obtain ⟨w, hw, hforward⟩ := e.member_forward hkind hm
    exact ⟨w, Approver.mem_ownVotes_iff.mpr (.inr ⟨hkind, hw⟩), hforward⟩

/-- A vote that is new in a slot is the vote of the edit. -/
theorem mem_votes_of_ownVotes (e : Edited p old new o n) (hnew : v ∈ n.ownVotes name)
    (hold : v ∉ o.ownVotes name) :
    name = p.username ∧ ∃ slot, slot.key p = n.key ∧ (slot, v) ∈ votes old.spec new p := by
  have hname : name = p.username := by
    by_contra hne
    exact hold ((e.mem_ownVotes_foreign hne).mpr hnew)
  rw [Approver.mem_ownVotes_iff, e.kind_eq, e.name_eq] at hold
  refine ⟨hname, ?_⟩
  rcases Approver.mem_ownVotes_iff.mp hnew with ⟨hkind, hentry, rfl⟩ | ⟨hkind, hm⟩
  · exact e.mem_votes_of_vote fun hvote => hold (.inl ⟨hkind, hentry, hvote.symm⟩)
  · have hmoved := e.member_moved hm fun hmo => hold (.inr ⟨hkind, hmo⟩)
    exact ⟨.group n.name, by rw [Approver.key, hkind]; rfl, hmoved.2.1⟩

/-- Whoever does not edit finds their user entry as it was. -/
theorem eq_of_foreign_user (e : Edited p old new o n) (hkind : n.kind = .user)
    (hname : n.name ≠ p.username) : n = o := by
  have hnew : n.members = [] := by
    by_contra hmembers
    rw [e.wellFormed.group_of_members hmembers] at hkind
    cases hkind
  have hold : o.members = [] := by
    rw [List.eq_nil_iff_forall_not_mem]
    intro m hm
    obtain ⟨m', hm', -⟩ := e.keepsMembers.kept m hm
    rw [hnew] at hm'
    cases hm'
  obtain ⟨hvote, hmessage⟩ := e.ownVote.foreign_user hkind hname
  have hnames := e.name_eq
  have hkinds := e.kind_eq
  cases n
  cases o
  simp_all

end Guard.Edited

/-- The slots of `old` are slots of `new`, with votes that have moved forward or not at all. -/
def Spec.Forward (old new : Spec) : Prop :=
  ∀ name key v, (key, v) ∈ old.ownSlots name → ∃ w, (key, w) ∈ new.ownSlots name ∧ v.Forward w

theorem Spec.Forward.refl (s : Spec) : s.Forward s := fun _ _ v h => ⟨v, h, .refl v⟩

theorem Spec.Forward.trans {s₁ s₂ s₃ : Spec} (h₁ : s₁.Forward s₂) (h₂ : s₂.Forward s₃) :
    s₁.Forward s₃ := by
  intro name key v hv
  obtain ⟨w, hw, hvw⟩ := h₁ name key v hv
  obtain ⟨x, hx, hwx⟩ := h₂ name key w hw
  exact ⟨x, hx, hvw.trans hwx⟩

/-- Nobody approves twice. Without it a principal who takes an approval back could stay in the
approving set by another slot. -/
def Spec.ApprovesOnce (s : Spec) : Prop :=
  ∀ name key key', (key, .approve) ∈ s.ownSlots name → (key', .approve) ∈ s.ownSlots name →
    key = key'

/-- The principal has rejected, or a group they claim has rejected without a member's record. -/
def Spec.RejectedBy (s : Spec) (p : Principal) : Prop :=
  (∃ key, (key, .reject) ∈ s.ownSlots p.username) ∨
    ∃ a ∈ s.approvers, a.kind = .group ∧ a.members = [] ∧ a.vote = .reject ∧
      p.claims a.name = true

namespace Guard.Cleared
variable {p : Principal} {old : Task} {new : Spec} {name : String} {key : Approver.Key} {v : Vote}

theorem edited (h : Cleared old new p) (hvalid : new.WellFormed) {o n : Approver}
    (ho : o ∈ old.spec.approvers) (hn : n ∈ new.approvers) (hkey : o.key = n.key) :
    Edited p old new o n := ⟨h, hvalid, ho, hn, hkey⟩

theorem mem_ownSlots_foreign (h : Cleared old new p) (hvalid : new.WellFormed)
    (hname : name ≠ p.username) :
    (key, v) ∈ old.spec.ownSlots name ↔ (key, v) ∈ new.ownSlots name := by
  rw [Spec.mem_ownSlots_iff, Spec.mem_ownSlots_iff]
  constructor
  · intro hslot
    obtain ⟨o, ho, rfl, hv⟩ := hslot
    obtain ⟨n, hn, hkey⟩ := h.sameShape.new_of_old ho
    exact ⟨n, hn, hkey.symm, ((h.edited hvalid ho hn hkey).mem_ownVotes_foreign hname).mp hv⟩
  · intro hslot
    obtain ⟨n, hn, rfl, hv⟩ := hslot
    obtain ⟨o, ho, hkey⟩ := h.sameShape.old_of_new hn
    exact ⟨o, ho, hkey, ((h.edited hvalid ho hn hkey).mem_ownVotes_foreign hname).mpr hv⟩

theorem forward (h : Cleared old new p) (hvalid : new.WellFormed) : old.spec.Forward new := by
  intro name key v hslot
  obtain ⟨o, ho, rfl, hv⟩ := Spec.mem_ownSlots_iff.mp hslot
  obtain ⟨n, hn, hkey⟩ := h.sameShape.new_of_old ho
  obtain ⟨w, hw, hforward⟩ := (h.edited hvalid ho hn hkey).ownVotes_forward hv
  exact ⟨w, Spec.mem_ownSlots_iff.mpr ⟨n, hn, hkey.symm, hw⟩, hforward⟩

/-- A vote that is new in a slot is the vote of the edit. -/
theorem mem_votes_of_slot (h : Cleared old new p) (hvalid : new.WellFormed)
    (hnew : (key, v) ∈ new.ownSlots name) (hold : (key, v) ∉ old.spec.ownSlots name) :
    name = p.username ∧ ∃ slot, slot.key p = key ∧ (slot, v) ∈ votes old.spec new p := by
  obtain ⟨n, hn, rfl, hv⟩ := Spec.mem_ownSlots_iff.mp hnew
  obtain ⟨o, ho, hkey⟩ := h.sameShape.old_of_new hn
  refine (h.edited hvalid ho hn hkey).mem_votes_of_ownVotes hv fun hvo => hold ?_
  exact Spec.mem_ownSlots_iff.mpr ⟨o, ho, hkey, hvo⟩

/-- Whoever approves in an edit has not approved before. -/
theorem not_approved_of_vote (h : Cleared old new p) {slot : Slot}
    (hslot : (slot, .approve) ∈ votes old.spec new p) :
    (key, .approve) ∉ old.spec.ownSlots p.username := fun hold =>
  h.not_approved_again (mem_recorded_of_spec (Spec.mem_recordedInSpec_of_slot hold rfl)) slot hslot

theorem approvesOnce (h : Cleared old new p) (hvalid : new.WellFormed)
    (hold : old.spec.ApprovesOnce) : new.ApprovesOnce := by
  intro name key key' hkey hkey'
  by_cases hbefore : (key, .approve) ∈ old.spec.ownSlots name
  · by_cases hbefore' : (key', .approve) ∈ old.spec.ownSlots name
    · exact hold name key key' hbefore hbefore'
    · obtain ⟨rfl, slot, -, hslot⟩ := h.mem_votes_of_slot hvalid hkey' hbefore'
      exact absurd hbefore (h.not_approved_of_vote hslot)
  · obtain ⟨rfl, slot, rfl, hslot⟩ := h.mem_votes_of_slot hvalid hkey hbefore
    obtain ⟨-, slot', rfl, hslot'⟩ :=
      h.mem_votes_of_slot hvalid hkey' (h.not_approved_of_vote hslot)
    obtain ⟨rfl, -⟩ := Prod.mk.inj (h.votes_eq hslot hslot')
    rfl

/-- Nobody loses an approval but to their own rejection. -/
theorem rejects_of_approving_lost (h : Cleared old new p) (hvalid : new.WellFormed)
    (hbefore : name ∈ old.spec.tally.approving) (hafter : name ∉ new.tally.approving) :
    name = p.username ∧
      ∃ key, (key, .approve) ∈ old.spec.ownSlots name ∧ (key, .reject) ∈ new.ownSlots name := by
  obtain ⟨key, hslot⟩ := Spec.mem_approving_iff_slot.mp hbefore
  have hlost : (key, .approve) ∉ new.ownSlots name := fun hkept =>
    hafter (Spec.mem_approving_iff_slot.mpr ⟨key, hkept⟩)
  obtain ⟨w, hw, hforward⟩ := h.forward hvalid name key .approve hslot
  obtain rfl : w = .reject := by
    refine hforward.eq_reject_of_approve fun happrove => hlost ?_
    rwa [← happrove]
  refine ⟨by_contra fun hname => ?_, key, hslot, hw⟩
  exact hlost ((h.mem_ownSlots_foreign hvalid hname).mp hslot)

theorem mem_of_foreign_user (h : Cleared old new p) (hvalid : new.WellFormed) {a : Approver}
    (ha : a ∈ old.spec.approvers) (hkind : a.kind = .user) (hname : a.name ≠ p.username) :
    a ∈ new.approvers := by
  obtain ⟨n, hn, hkey⟩ := h.sameShape.new_of_old ha
  have e := h.edited hvalid ha hn hkey
  rw [e.kind_eq] at hkind
  rw [e.name_eq] at hname
  exact e.eq_of_foreign_user hkind hname ▸ hn

theorem not_rejectedBy (h : Cleared old new p) : ¬ old.spec.RejectedBy p := by
  intro hrejected
  refine h.not_rejected (mem_recorded_of_spec ?_)
  rcases hrejected with ⟨key, hslot⟩ | ⟨a, ha, hkind, hmembers, hvote, hclaims⟩
  · exact Spec.mem_recordedInSpec_of_slot hslot rfl
  · exact mem_recordedInSpec_of_claim ha hkind hmembers hclaims (by rw [hvote]; rfl)

/-- Rejections stay with those who made them, since no admitted edit can cast a second vote for
somebody who has rejected. -/
theorem rejectedBy (h : Cleared old new p) (hvalid : new.WellFormed) {q : Principal}
    (hrejected : old.spec.RejectedBy q) : new.RejectedBy q := by
  rcases hrejected with ⟨key, hslot⟩ | ⟨o, ho, hkind, hmembers, hvote, hclaims⟩
  · obtain ⟨w, hw, hforward⟩ := h.forward hvalid _ _ _ hslot
    obtain rfl := hforward.eq_reject rfl
    exact .inl ⟨key, hw⟩
  · obtain ⟨n, hn, hkey⟩ := h.sameShape.new_of_old ho
    have e := h.edited hvalid ho hn hkey
    rw [e.kind_eq] at hkind
    refine .inr ⟨n, hn, hkind, e.members_eq_nil_of_reject hkind hmembers hvote,
      e.vote_eq_of_reject hkind hmembers hvote, ?_⟩
    rw [← e.name_eq, hclaims]

end Guard.Cleared

theorem Spec.AllPending.approvesOnce {s : Spec} (h : s.AllPending) : s.ApprovesOnce := by
  intro name key key' hkey
  obtain ⟨a, ha, -, hmem⟩ := Spec.mem_ownSlots_iff.mp hkey
  rcases Approver.mem_ownVotes_iff.mp hmem with ⟨-, -, hvote⟩ | ⟨-, hm⟩
  · rw [h.approvers_pending a ha] at hvote
    cases hvote
  · cases h.members_pending a ha _ hm

namespace EditRun
variable {s₀ s₁ s₂ : Spec}

theorem wellFormed (h : EditRun s₀ s₁) (hvalid : s₀.WellFormed) : s₁.WellFormed := by
  rcases h.cases_tail with rfl | ⟨s, -, p, hedit⟩
  · exact hvalid
  · obtain ⟨t, -, -, hnew⟩ := hedit.cleared
    exact hnew

theorem forward (h : EditRun s₀ s₁) : s₀.Forward s₁ := by
  induction h with
  | refl => exact .refl _
  | tail _ hedit ih =>
    obtain ⟨p, hedit⟩ := hedit
    obtain ⟨t, rfl, hcleared, hvalid⟩ := hedit.cleared
    exact ih.trans (hcleared.forward hvalid)

theorem approvesOnce (h : EditRun s₀ s₁) (hpending : s₀.AllPending) : s₁.ApprovesOnce := by
  induction h with
  | refl => exact hpending.approvesOnce
  | tail _ hedit ih =>
    obtain ⟨p, hedit⟩ := hedit
    obtain ⟨t, rfl, hcleared, hvalid⟩ := hedit.cleared
    exact hcleared.approvesOnce hvalid ih

theorem rejectedBy (h : EditRun s₀ s₁) {p : Principal} (hrejected : s₀.RejectedBy p) :
    s₁.RejectedBy p := by
  induction h with
  | refl => exact hrejected
  | tail _ hedit ih =>
    obtain ⟨q, hedit⟩ := hedit
    obtain ⟨t, rfl, hcleared, hvalid⟩ := hedit.cleared
    exact hcleared.rejectedBy hvalid ih

end EditRun

/-- A person approves in one slot at most, since the slots of a valid specification have different
keys. -/
theorem Spec.ApprovesOnce.length_le {s : Spec} (h : s.ApprovesOnce) (hvalid : s.WellFormed)
    (name : String) : ((s.ownSlots name).filter (·.2 = .approve)).length ≤ 1 := by
  have hdistinct : (((s.ownSlots name).filter (·.2 = .approve)).map Prod.fst).Nodup :=
    (hvalid.ownSlots_distinct name).sublist (List.filter_sublist.map _)
  have happroving {key : Approver.Key}
      (hkey : key ∈ ((s.ownSlots name).filter (·.2 = .approve)).map Prod.fst) :
      (key, .approve) ∈ s.ownSlots name := by
    simpa using hkey
  rw [← List.length_map Prod.fst]
  exact length_le_one_of_nodup hdistinct fun key hkey key' hkey' =>
    h name key key' (happroving hkey) (happroving hkey')

/-- In a run of admitted edits: (a) each vote of a person stays in its slot, and moves only forward
and only by their own edits, so that an approval is lost only to the rejection of the same person;
(b) nobody approves twice; (c) whoever has rejected, or claims a group that has rejected without a
member's record, edits no more. -/
theorem decisions_only_move_forward {s₀ s₁ : Spec} (hcreated : s₀.Created)
    (hrun : EditRun s₀ s₁) :
    (∀ s₂, EditRun s₁ s₂ → ∀ name key v, (key, v) ∈ s₁.ownSlots name →
      ∃ w, (key, w) ∈ s₂.ownSlots name ∧ (v.isDecided = true → w.isDecided = true) ∧
        (v = .reject → w = .reject)) ∧
    (∀ p s₂, s₁.EditedBy p s₂ →
      (∀ name, name ≠ p.username →
        ∀ key v, (key, v) ∈ s₁.ownSlots name ↔ (key, v) ∈ s₂.ownSlots name) ∧
      (∀ a ∈ s₁.approvers, a.kind = .user → a.name ≠ p.username → a ∈ s₂.approvers) ∧
      (∀ name ∈ s₁.tally.approving, name ∉ s₂.tally.approving → name = p.username ∧
        ∃ key, (key, .approve) ∈ s₁.ownSlots name ∧ (key, .reject) ∈ s₂.ownSlots name)) ∧
    (∀ name, ((s₁.ownSlots name).filter (·.2 = .approve)).length ≤ 1) ∧
    (∀ s₂, EditRun s₁ s₂ → ∀ p, s₁.RejectedBy p → ∀ s₃, ¬ s₂.EditedBy p s₃) := by
  obtain ⟨hvalid, hpending⟩ := hcreated.wellFormed_allPending
  refine ⟨fun s₂ hlater name key v hslot => ?_, fun p s₂ hedit => ?_, ?_,
    fun s₂ hlater p hrejected s₃ hedit => ?_⟩
  · obtain ⟨w, hw, hforward⟩ := hlater.forward name key v hslot
    exact ⟨w, hw, hforward.isDecided, hforward.eq_reject⟩
  · obtain ⟨t, rfl, hcleared, hnew⟩ := hedit.cleared
    refine ⟨fun name hname key v => hcleared.mem_ownSlots_foreign hnew hname,
      fun a ha hkind hname => hcleared.mem_of_foreign_user hnew ha hkind hname,
      fun name hbefore hafter => hcleared.rejects_of_approving_lost hnew hbefore hafter⟩
  · exact (hrun.approvesOnce hpending).length_le (hrun.wellFormed hvalid)
  · obtain ⟨t, rfl, hcleared, -⟩ := hedit.cleared
    exact hcleared.not_rejectedBy (hlater.rejectedBy hrejected)

/-- A gate that two have to open, one of them by a user entry and by a group without records. -/
def pairGate (ann ops : Vote) : Task :=
  .new "gate"
    ⟨[{ Approver.user "ann" with vote := ann }, .user "bob",
      { Approver.group "ops" with vote := ops }], 2, none⟩

theorem pairGate_edit {ann ops ann' ops' : Vote} {p : Principal}
    (hold : Task.decoder.ofJson (pairGate ann ops).toJson = .ok (pairGate ann ops))
    (hnew : Task.decoder.ofJson (pairGate ann' ops').toJson = .ok (pairGate ann' ops'))
    (hvalid : (pairGate ann' ops').spec.problems = [])
    (hauthorized : authorize (pairGate ann ops) (pairGate ann' ops').spec p = .allow) :
    (pairGate ann ops).spec.EditedBy p (pairGate ann' ops').spec :=
  ⟨.update p (pairGate ann' ops') (pairGate ann ops), _, _, rfl, rfl, hold, hnew,
    Admission.update_allowed_of_authorized hold hnew hvalid hauthorized, rfl, rfl⟩

theorem approval_authorized : authorize (pairGate .pending .pending)
    (pairGate .approve .pending).spec ⟨"ann", []⟩ = .allow := by
  have hchanges : (pairGate .pending .pending).spec.changesTo (pairGate .approve .pending).spec =
      [.vote ⟨.user, "ann"⟩ .approve] := by cbv
  refine Guard.authorize_eq_allow_iff.mpr
    (Guard.cleared_of_vote .user .approve hchanges ?_ ?_ ?_ ?_ ?_ ?_ ?_ ?_) <;> decide

/-- A rejection may take the place of an approval. -/
theorem turn_authorized : authorize (pairGate .approve .pending)
    (pairGate .reject .pending).spec ⟨"ann", []⟩ = .allow := by
  have hchanges : (pairGate .approve .pending).spec.changesTo (pairGate .reject .pending).spec =
      [.vote ⟨.user, "ann"⟩ .reject] := by cbv
  refine Guard.authorize_eq_allow_iff.mpr
    (Guard.cleared_of_vote .user .reject hchanges ?_ ?_ ?_ ?_ ?_ ?_ ?_ ?_) <;> decide

/-- Whoever claims a group without records may vote for it. -/
theorem groupRejection_authorized : authorize (pairGate .reject .pending)
    (pairGate .reject .reject).spec ⟨"eve", ["ops"]⟩ = .allow := by
  have hchanges : (pairGate .reject .pending).spec.changesTo (pairGate .reject .reject).spec =
      [.vote ⟨.group, "ops"⟩ .reject] := by cbv
  refine Guard.authorize_eq_allow_iff.mpr
    (Guard.cleared_of_vote (.group "ops") .reject hchanges ?_ ?_ ?_ ?_ ?_ ?_ ?_ ?_) <;>
    decide

/-- A user approves, takes that back by a rejection, and is out; so is everyone who claims a group
that then rejects. -/
theorem turncoat_is_out :
    EditRun (pairGate .pending .pending).spec (pairGate .reject .reject).spec ∧
      "ann" ∈ (pairGate .approve .pending).spec.tally.approving ∧
      "ann" ∉ (pairGate .reject .pending).spec.tally.approving ∧
      (∀ groups s, ¬ (pairGate .reject .reject).spec.EditedBy ⟨"ann", groups⟩ s) ∧
      (∀ user s, ¬ (pairGate .reject .reject).spec.EditedBy ⟨user, ["ops"]⟩ s) := by
  have hcreated : (pairGate .pending .pending).spec.Created :=
    ⟨.create ⟨"eve", []⟩ (pairGate .pending .pending), _, rfl, rfl, by decide, rfl⟩
  have happrove : (pairGate .pending .pending).spec.EditedBy ⟨"ann", []⟩
      (pairGate .approve .pending).spec :=
    pairGate_edit rfl rfl (by decide) approval_authorized
  have hturn : (pairGate .approve .pending).spec.EditedBy ⟨"ann", []⟩
      (pairGate .reject .pending).spec :=
    pairGate_edit rfl rfl (by decide) turn_authorized
  have hgroup : (pairGate .reject .pending).spec.EditedBy ⟨"eve", ["ops"]⟩
      (pairGate .reject .reject).spec :=
    pairGate_edit rfl rfl (by decide) groupRejection_authorized
  have hrun : EditRun (pairGate .pending .pending).spec (pairGate .reject .reject).spec :=
    .head ⟨_, happrove⟩ (.head ⟨_, hturn⟩ (.single ⟨_, hgroup⟩))
  obtain ⟨-, -, -, hout⟩ := decisions_only_move_forward hcreated hrun
  have hslot : (⟨.user, "ann"⟩, .reject) ∈ (pairGate .reject .reject).spec.ownSlots "ann" := by
    decide
  have hops : { Approver.group "ops" with vote := .reject } ∈
      (pairGate .reject .reject).spec.approvers := by decide
  have hclaims (user : String) : Principal.claims ⟨user, ["ops"]⟩ "ops" = true :=
    by simp [Principal.claims]
  refine ⟨hrun, by decide, by decide, fun groups s => ?_, fun user s => ?_⟩
  · exact hout _ .refl ⟨"ann", groups⟩ (.inl ⟨_, hslot⟩) s
  · exact hout _ .refl ⟨user, ["ops"]⟩ (.inr ⟨_, hops, rfl, rfl, rfl, hclaims user⟩) s

end Quorum
