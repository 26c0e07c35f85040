import Quorum.Proofs.Review

/-!
# Admitted edits are the editor's own vote

`Spec.OwnVote` says what an edit of one principal may change: one vote in one slot of their own and
the message beside it, with every approver, every record and every message of anybody else where it
was. An admitted update is such an edit, whatever the two tasks hold
(`admitted_update_is_own_vote`).
-/
namespace Quorum

/-- What may change in one approver: members keep their records and their votes but for the
principal's own, and so does the approver itself. -/
structure Approver.OwnVote (p : Principal) (old new : Approver) : Prop where
  keeps_members : old.KeepsMembers new
  foreign_members : ∀ m, m.name ≠ p.username → (m ∈ old.members ↔ m ∈ new.members)
  joined : ∀ m ∈ new.members, (∀ o ∈ old.members, o.name ≠ m.name) →
    m.name = p.username ∧ p.claims new.name = true
  foreign_user : new.kind = .user → new.name ≠ p.username →
    new.vote = old.vote ∧ new.message = old.message
  group_vote : new.kind = .group → new.vote ≠ old.vote →
    (p.claims new.name = true ∨ ∃ m ∈ old.members, m.name = p.username) ∧
    (old.members = [] ∨
      ⟨p.username, new.vote⟩ ∈ new.members ∧ ⟨p.username, new.vote⟩ ∉ old.members)
  group_message : new.kind = .group → new.message ≠ old.message →
    new.vote ≠ old.vote ∨ ∃ m ∈ new.members, m.name = p.username ∧ m ∉ old.members

/-- Whatever votes differ belong to the approver `key` and are now `v`. -/
structure Approver.VotesAt (key : Approver.Key) (v : Vote) (old new : Approver) : Prop where
  vote : new.vote ≠ old.vote → new.key = key ∧ new.vote = v
  members : ∀ m ∈ new.members, m ∉ old.members → new.key = key ∧ m.vote = v

/-- An edit that is one vote of `p`, or none. -/
structure Spec.OwnVote (p : Principal) (old new : Spec) : Prop where
  shape : old.SameShape new
  approvers : ∀ o ∈ old.approvers, ∀ n ∈ new.approvers, o.key = n.key → o.OwnVote p n
  single : ∃ key v, v.isDecided = true ∧
    ∀ o ∈ old.approvers, ∀ n ∈ new.approvers, o.key = n.key → Approver.VotesAt key v o n

namespace Guard

/-- The approver a slot belongs to. -/
def Slot.key (p : Principal) : Slot → Approver.Key
  | user => ⟨.user, p.username⟩
  | group name => ⟨.group, name⟩

/-- An approver before and after an edit that was cleared. -/
structure Edited (p : Principal) (old : Task) (new : Spec) (o n : Approver) : Prop where
  cleared : Cleared old new p
  valid : new.WellFormed
  old_mem : o ∈ old.spec.approvers
  new_mem : n ∈ new.approvers
  key_eq : o.key = n.key

namespace Edited
variable {p : Principal} {old : Task} {new : Spec} {o n : Approver}

theorem kind_eq (e : Edited p old new o n) : o.kind = n.kind :=
  congrArg Approver.Key.kind e.key_eq

theorem name_eq (e : Edited p old new o n) : o.name = n.name :=
  congrArg Approver.Key.name e.key_eq

theorem wellFormed (e : Edited p old new o n) : n.WellFormed :=
  e.valid.approvers_wellFormed n e.new_mem

theorem mem_changesTo (e : Edited p old new o n) {c : Change} (hc : c ∈ Change.ofApprover o n) :
    c ∈ old.spec.changesTo new :=
  (Spec.mem_changesTo_iff e.cleared.sameShape).mpr
    ⟨o, e.old_mem, n, e.new_mem, e.key_eq, hc⟩

theorem keepsMembers (e : Edited p old new o n) : o.KeepsMembers n :=
  Change.keepsMembers_of_changes e.wellFormed.members_distinct
    fun _ hc => e.cleared.not_isStructural (e.mem_changesTo hc)

theorem belongsTo_iff (e : Edited p old new o n) (hkind : n.kind = .group) :
    belongsTo old.spec n.name p = true ↔
      p.claims n.name = true ∨ ∃ m ∈ o.members, m.name = p.username := by
  rw [← e.name_eq]
  exact Guard.belongsTo_iff e.cleared.sameShape.old_distinct e.old_mem (e.kind_eq.trans hkind)

/-- The only pair of its key. -/
theorem eq_of_key (e : Edited p old new o n) {o' n' : Approver}
    (e' : Edited p old new o' n') (hkey : n'.key = n.key) : o' = o ∧ n' = n := by
  have shape := e.cleared.sameShape
  constructor
  · exact List.inj_on_of_nodup_map shape.old_distinct e'.old_mem e.old_mem
      ((e'.key_eq.trans hkey).trans e.key_eq.symm)
  · exact List.inj_on_of_nodup_map shape.new_distinct e'.new_mem e.new_mem hkey

theorem vote_mem_changesTo (e : Edited p old new o n) (hvote : n.vote ≠ o.vote) :
    .vote n.key n.vote ∈ old.spec.changesTo new :=
  e.mem_changesTo ((Change.mem_ofApprover_iff e.keepsMembers).mpr (.inl ⟨hvote.symm, rfl⟩))

theorem owns_vote (e : Edited p old new o n) (hvote : n.vote ≠ o.vote) :
    owns old.spec new p (.vote n.key n.vote) = true :=
  e.cleared.owns_of_no_message (e.vote_mem_changesTo hvote) rfl

theorem mem_votes_of_vote (e : Edited p old new o n) (hvote : n.vote ≠ o.vote) :
    ∃ slot, slot.key p = n.key ∧ (slot, n.vote) ∈ votes old.spec new p := by
  have hc := e.vote_mem_changesTo hvote
  have howns := e.owns_vote hvote
  rcases e.wellFormed.named with ⟨hkind, -⟩ | ⟨hkind, -⟩
  · have hkey : n.key = ⟨.user, n.name⟩ := by rw [Approver.key, hkind]
    rw [hkey] at hc howns ⊢
    have hname : n.name = p.username := by simpa [owns] using howns
    exact ⟨.user, by rw [Slot.key, hname], mem_votes_iff.mpr ⟨_, hc, howns, rfl⟩⟩
  · have hkey : n.key = ⟨.group, n.name⟩ := by rw [Approver.key, hkind]
    rw [hkey] at hc howns ⊢
    exact ⟨.group n.name, rfl, mem_votes_iff.mpr ⟨_, hc, howns, rfl⟩⟩

/-- A record that is new or moved is the principal's, and one they may add or move. -/
theorem member_moved (e : Edited p old new o n) {m : Member} (hm : m ∈ n.members)
    (hmoved : m ∉ o.members) :
    m.name = p.username ∧ (.group n.name, m.vote) ∈ votes old.spec new p ∧
      ((∀ x ∈ o.members, x.name ≠ m.name) → belongsTo old.spec n.name p = true) := by
  by_cases hadded : ∀ x ∈ o.members, x.name ≠ m.name
  · have hc : Change.memberAdded n.name m.name m.vote ∈ Change.ofApprover o n :=
      (Change.mem_ofApprover_iff e.keepsMembers).mpr
        (.inr (.inr ⟨m, hm, .inl ⟨hadded, rfl⟩⟩))
    have howns := e.cleared.owns_of_no_message (e.mem_changesTo hc) rfl
    have hown : m.name = p.username ∧ belongsTo old.spec n.name p = true := by
      simpa [owns] using howns
    exact ⟨hown.1, mem_votes_iff.mpr ⟨_, e.mem_changesTo hc, howns, rfl⟩, fun _ => hown.2⟩
  · simp only [not_forall, not_not] at hadded
    obtain ⟨x, hx, hname⟩ := hadded
    have hvote : x.vote ≠ m.vote := by
      intro heq
      have hxm : x = m := by cases x; cases m; simp_all
      exact hmoved (hxm ▸ hx)
    have hc : Change.memberVote n.name m.name m.vote ∈ Change.ofApprover o n :=
      (Change.mem_ofApprover_iff e.keepsMembers).mpr
        (.inr (.inr ⟨m, hm, .inr ⟨x, hx, hname, hvote, rfl⟩⟩))
    have howns := e.cleared.owns_of_no_message (e.mem_changesTo hc) rfl
    refine ⟨by simpa [owns] using howns, mem_votes_iff.mpr ⟨_, e.mem_changesTo hc, howns, rfl⟩, ?_⟩
    exact fun hnone => absurd hname (hnone x hx)

/-- A vote of the edit in a group shows in the group's vote or in the principal's record. -/
theorem moved_of_mem_votes (e : Edited p old new o n) (hkind : n.kind = .group) {v : Vote}
    (hv : (.group n.name, v) ∈ votes old.spec new p) :
    n.vote ≠ o.vote ∨ ∃ m ∈ n.members, m.name = p.username ∧ m ∉ o.members := by
  obtain ⟨c, hc, howns, hslot⟩ := mem_votes_iff.mp hv
  obtain ⟨o', ho', n', hn', hkey', hc⟩ := (Spec.mem_changesTo_iff e.cleared.sameShape).mp hc
  have e' : Edited p old new o' n' := ⟨e.cleared, e.valid, ho', hn', hkey'⟩
  -- The change is of the same group: members are found in groups only.
  have same : n'.kind = .group → n'.name = n.name → o' = o ∧ n' = n := fun hk hname =>
    e.eq_of_key e' (by rw [Approver.key, Approver.key, hk, hkind, hname])
  rcases (Change.mem_ofApprover_iff e'.keepsMembers).mp hc with
    ⟨hvote, rfl⟩ | ⟨-, rfl⟩ | ⟨m, hm, ⟨hadded, rfl⟩ | ⟨x, hx, hname, hvote, rfl⟩⟩
  · rcases hk : n'.kind with _ | _ | _ <;> rw [Approver.key, hk] at hslot <;>
      simp only [Slot.ofChange?, Option.some.injEq, Prod.mk.injEq, reduceCtorEq, false_and,
        Slot.group.injEq] at hslot
    obtain ⟨rfl, rfl⟩ := same hk hslot.1
    exact .inl hvote.symm
  · simp [Slot.ofChange?] at hslot
  · have hgroup := e'.wellFormed.group_of_members (List.ne_nil_of_mem hm)
    simp only [Slot.ofChange?, Option.some.injEq, Prod.mk.injEq, Slot.group.injEq] at hslot
    obtain ⟨rfl, rfl⟩ := same hgroup hslot.1
    have hown : m.name = p.username ∧ belongsTo old.spec n'.name p = true := by
      simpa [owns] using howns
    exact .inr ⟨m, hm, hown.1, fun hmo => hadded m hmo rfl⟩
  · have hgroup := e'.wellFormed.group_of_members (List.ne_nil_of_mem hm)
    simp only [Slot.ofChange?, Option.some.injEq, Prod.mk.injEq, Slot.group.injEq] at hslot
    obtain ⟨rfl, rfl⟩ := same hgroup hslot.1
    refine .inr ⟨m, hm, by simpa [owns] using howns, fun hmo => hvote ?_⟩
    rw [List.inj_on_of_nodup_map e'.keepsMembers.old_distinct hx hmo hname]

theorem foreign_members (e : Edited p old new o n) {m : Member} (hname : m.name ≠ p.username) :
    m ∈ o.members ↔ m ∈ n.members := by
  constructor
  · intro hm
    obtain ⟨m', hm', hname'⟩ := e.keepsMembers.kept m hm
    have hmem : m' ∈ o.members := by
      by_contra hmoved
      exact hname (hname'.symm.trans (e.member_moved hm' hmoved).1)
    rwa [List.inj_on_of_nodup_map e.keepsMembers.old_distinct hm hmem hname'.symm]
  · intro hm
    by_contra hmoved
    exact hname (e.member_moved hm hmoved).1

theorem joined (e : Edited p old new o n) {m : Member} (hm : m ∈ n.members)
    (hadded : ∀ x ∈ o.members, x.name ≠ m.name) :
    m.name = p.username ∧ p.claims n.name = true := by
  have hmoved := e.member_moved hm fun hmo => hadded m hmo rfl
  have hgroup := e.wellFormed.group_of_members (List.ne_nil_of_mem hm)
  refine ⟨hmoved.1, ?_⟩
  rcases (e.belongsTo_iff hgroup).mp (hmoved.2.2 hadded) with hclaims | ⟨x, hx, hname⟩
  · exact hclaims
  · exact absurd (hname.trans hmoved.1.symm) (hadded x hx)

theorem user_vote (e : Edited p old new o n) (hkind : n.kind = .user) (hvote : n.vote ≠ o.vote) :
    n.name = p.username := by
  have howns := e.owns_vote hvote
  rw [Approver.key, hkind] at howns
  simpa [owns] using howns

theorem user_message (e : Edited p old new o n) (hkind : n.kind = .user)
    (hmessage : n.message ≠ o.message) : n.name = p.username := by
  have hc : Change.message n.key ∈ Change.ofApprover o n :=
    (Change.mem_ofApprover_iff e.keepsMembers).mpr (.inr (.inl ⟨hmessage.symm, rfl⟩))
  rw [Approver.key, hkind] at hc
  have howns := e.cleared.owns_of_no_message (e.mem_changesTo hc) rfl
  simpa [owns] using howns

theorem group_vote (e : Edited p old new o n) (hkind : n.kind = .group)
    (hvote : n.vote ≠ o.vote) :
    (p.claims n.name = true ∨ ∃ m ∈ o.members, m.name = p.username) ∧
    (o.members = [] ∨ ⟨p.username, n.vote⟩ ∈ n.members ∧ ⟨p.username, n.vote⟩ ∉ o.members) := by
  have howns := e.owns_vote hvote
  have hold : old.spec.approver? .group n.name = some o :=
    (Spec.approver?_eq_some_iff e.cleared.sameShape.old_distinct).mpr
      ⟨e.old_mem, by rw [e.key_eq, Approver.key, hkind]⟩
  have hnew : new.approver? .group n.name = some n :=
    (Spec.approver?_eq_some_iff e.cleared.sameShape.new_distinct).mpr
      ⟨e.new_mem, by rw [Approver.key, hkind]⟩
  rw [Approver.key, hkind] at howns
  simp only [owns, ownsGroupVote, hold, hnew, Option.bind_some, Bool.and_eq_true, Bool.or_eq_true,
    List.isEmpty_iff, decide_eq_true_eq, Option.map_eq_some_iff, ne_eq] at howns
  refine ⟨(e.belongsTo_iff hkind).mp howns.1, howns.2.imp_right ?_⟩
  intro h
  obtain ⟨⟨m, hm, hmv⟩, hbefore⟩ := h
  obtain ⟨hm, hname⟩ := (Approver.member?_eq_some_iff e.keepsMembers.new_distinct).mp hm
  constructor
  · rw [← hname, ← hmv]
    exact hm
  · intro hmo
    exact hbefore ⟨_, (Approver.member?_eq_some_iff e.keepsMembers.old_distinct).mpr ⟨hmo, rfl⟩,
      rfl⟩

theorem group_message (e : Edited p old new o n) (hkind : n.kind = .group)
    (hmessage : n.message ≠ o.message) :
    n.vote ≠ o.vote ∨ ∃ m ∈ n.members, m.name = p.username ∧ m ∉ o.members := by
  have hc : Change.message n.key ∈ Change.ofApprover o n :=
    (Change.mem_ofApprover_iff e.keepsMembers).mpr (.inr (.inl ⟨hmessage.symm, rfl⟩))
  rw [Approver.key, hkind] at hc
  rcases e.cleared.own_or_message (e.mem_changesTo hc) with howns | ⟨group, hgroup, v, hv⟩
  · simp [owns] at howns
  · simp only [groupMessage?] at hgroup
    split at hgroup
    · obtain rfl := Option.some.inj hgroup
      exact e.moved_of_mem_votes hkind hv
    · cases hgroup

theorem ownVote (e : Edited p old new o n) : o.OwnVote p n where
  keeps_members := e.keepsMembers
  foreign_members _ hname := e.foreign_members hname
  joined _ hm hadded := e.joined hm hadded
  foreign_user hkind hname :=
    ⟨by_contra fun hvote => hname (e.user_vote hkind hvote),
      by_contra fun hmessage => hname (e.user_message hkind hmessage)⟩
  group_vote hkind hvote := e.group_vote hkind hvote
  group_message hkind hmessage := e.group_message hkind hmessage

end Edited

namespace Cleared
variable {old : Task} {new : Spec} {p : Principal}

theorem votesAt (h : Cleared old new p) (hvalid : new.WellFormed) :
    ∃ key v, v.isDecided = true ∧ ∀ o ∈ old.spec.approvers, ∀ n ∈ new.approvers, o.key = n.key →
      Approver.VotesAt key v o n := by
  have edited : ∀ o ∈ old.spec.approvers, ∀ n ∈ new.approvers, o.key = n.key →
      Edited p old new o n := fun _ ho _ hn hkey => ⟨h, hvalid, ho, hn, hkey⟩
  cases hvotes : votes old.spec new p with
  | nil =>
    refine ⟨⟨.user, p.username⟩, .approve, rfl, fun o ho n hn hkey => ⟨fun hvote => ?_, ?_⟩⟩
    · obtain ⟨slot, -, hmem⟩ := (edited o ho n hn hkey).mem_votes_of_vote hvote
      simp [hvotes] at hmem
    · intro m hm hmoved
      have hmem := ((edited o ho n hn hkey).member_moved hm hmoved).2.1
      simp [hvotes] at hmem
  | cons vote others =>
    have hfirst : vote ∈ votes old.spec new p := by simp [hvotes]
    refine ⟨vote.1.key p, vote.2, h.votes_decided vote hfirst, fun o ho n hn hkey => ⟨?_, ?_⟩⟩
    · intro hvote
      obtain ⟨slot, hslot, hmem⟩ := (edited o ho n hn hkey).mem_votes_of_vote hvote
      rw [h.votes_eq hfirst hmem]
      exact ⟨hslot.symm, rfl⟩
    · intro m hm hmoved
      have e := edited o ho n hn hkey
      rw [h.votes_eq hfirst (e.member_moved hm hmoved).2.1]
      have hgroup := e.wellFormed.group_of_members (List.ne_nil_of_mem hm)
      exact ⟨by rw [Approver.key, hgroup]; rfl, rfl⟩

theorem ownVote (h : Cleared old new p) (hvalid : new.WellFormed) : old.spec.OwnVote p new where
  shape := h.sameShape
  approvers _ ho _ hn hkey := Edited.ownVote ⟨h, hvalid, ho, hn, hkey⟩
  single := h.votesAt hvalid

end Cleared
end Guard

namespace Admission

/-- An update is allowed only as one vote of the principal's own, on a task still undecided. -/
theorem admitted_update_is_own_vote {r : Request} {old new : Task} (hop : r.operation = .update)
    (hold : Task.decoder.ofJson (r.oldObject.getD .null) = .ok old)
    (hnew : Task.decoder.ofJson r.object = .ok new) (hallowed : (respond r).allowed = true) :
    new.spec.validate = .ok () ∧ old.status.state.isFinal = false ∧
      old.spec.tally.meets old.spec.required = false ∧ old.spec.OwnVote r.user new.spec := by
  obtain ⟨hvalid, hcleared⟩ := (update_allowed_iff hop hold hnew).mp hallowed
  exact ⟨Spec.validate_eq_ok_iff.mpr hvalid, hcleared.status_open, hcleared.tally_open,
    hcleared.ownVote hvalid⟩

/-- A gate for a user and for a group that keeps a record of one member. -/
def guardedGate (user group member : Vote) : Task :=
  .new "gate"
    ⟨[{ Approver.user "ann" with vote := user },
      { Approver.group "ops" with vote := group, members := [⟨"bob", member⟩] }], 1, none⟩

/-- The member moves their own record and the group's vote with it. -/
def memberRejection : Request :=
  .update ⟨"bob", []⟩ (guardedGate .pending .reject .reject)
    (guardedGate .pending .pending .pending)

theorem memberRejection_authorized : authorize (guardedGate .pending .pending .pending)
    (guardedGate .pending .reject .reject).spec ⟨"bob", []⟩ = .allow := by
  have hchanges : (guardedGate .pending .pending .pending).spec.changesTo
      (guardedGate .pending .reject .reject).spec =
        [.vote ⟨.group, "ops"⟩ .reject, .memberVote "ops" "bob" .reject] := by cbv
  refine Guard.authorize_eq_allow_iff.mpr
    (Guard.cleared_of_vote (.group "ops") .reject hchanges ?_ ?_ ?_ ?_ ?_ ?_ ?_ ?_) <;>
    decide

theorem memberRejection_is_own_vote :
    (respond memberRejection).allowed = true ∧
      (guardedGate .pending .pending .pending).spec.OwnVote ⟨"bob", []⟩
        (guardedGate .pending .reject .reject).spec := by
  have hold : Task.decoder.ofJson (memberRejection.oldObject.getD .null) =
      .ok (guardedGate .pending .pending .pending) := by rfl
  have hnew : Task.decoder.ofJson memberRejection.object =
      .ok (guardedGate .pending .reject .reject) := by rfl
  have hallowed : (respond memberRejection).allowed = true :=
    update_allowed_of_authorized hold hnew (by decide) memberRejection_authorized
  exact ⟨hallowed, (admitted_update_is_own_vote rfl hold hnew hallowed).2.2.2⟩

end Admission
end Quorum
