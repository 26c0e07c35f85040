import Quorum.Proofs.Canonical
import Quorum.Proofs.Effect
import Quorum.Proofs.OwnVote
import Quorum.Proofs.Rightful

/-!
# Votes that decide nothing

A vote that is neither an approval nor a rejection is not recorded. Admission refuses every edit
that brings such a vote into a slot (`Guard.Edited.vote_eq_of_undecided`,
`Guard.Edited.mem_of_undecided`) and every edit that brings nothing (`Guard.Cleared.ne_spec`). What
is left is to vote `pending` where that is the vote already: in a group no message comes with it,
but the message beside a voter's own entry is theirs to change (`Ballot.Remarked`).
-/
namespace Quorum

theorem Vote.eq_pending {v : Vote} (hknown : v.isKnown = true) (hvote : v.isDecided = false) :
    v = .pending := by
  cases v with
  | pending => rfl
  | other => cases hknown
  | _ => cases hvote

/-- The vote that the text of `v` stands for. -/
def Vote.reread (v : Vote) : Vote := ofText v.text

theorem Vote.text_of_reread {v w : Vote} (h : v.reread = w) : v.text = w.text := by
  rw [← h, reread, text_ofText]

theorem Vote.ne_of_text {v w : Vote} {text : String} (h : v.text = text) (hw : w.text ≠ text) :
    v ≠ w := by
  rintro rfl
  exact hw h

def Member.reread (m : Member) : Member := { m with vote := m.vote.reread }

def Approver.reread (a : Approver) : Approver :=
  { a with
    kind := .ofText a.kind.text, vote := a.vote.reread, members := a.members.map Member.reread }

def Spec.reread (s : Spec) : Spec := { s with approvers := s.approvers.map Approver.reread }

open Json Fields

/-- A list of which every item is read as something is read as the list of these. -/
theorem Decoder.mapM_map_eq_ok {f : β → Except ε γ} {g : α → β} {k : α → γ} {as : List α}
    (h : ∀ a ∈ as, f (g a) = .ok (k a)) : (as.map g).mapM f = .ok (as.map k) := by
  induction as with
  | nil => rfl
  | cons a as ih =>
    rw [List.map_cons, List.mapM_cons, h a List.mem_cons_self,
      ih fun b hb => h b (List.mem_cons_of_mem a hb)]
    rfl

theorem Member.decodes_as_reread (m : Member) : Member.decoder.ofJson m.toJson = .ok m.reread := by
  simp only [decoder, toJson, ofFields_eq, Decoder.record_eq_ok_iff, Fields.seq_eq_ok_iff,
    Fields.map_eq_ok_iff]
  refine ⟨_, m.vote.reread, ⟨m.name, ?_, rfl⟩, ?_, rfl⟩
  · exact make_of_field (.string m.name) (by simp) rfl
  · exact make_of_field m.vote.toJson (by simp) rfl

theorem Approver.decodes_as_reread (a : Approver) :
    Approver.decoder.ofJson a.toJson = .ok a.reread := by
  have hmembers : (Decoder.list Member.decoder).ofJson (ofList Member.toJson a.members) =
      .ok (a.members.map Member.reread) :=
    Decoder.mapM_map_eq_ok fun m _ => m.decodes_as_reread
  simp only [decoder, toJson, ofFields_eq, Decoder.record_eq_ok_iff, Fields.seq_eq_ok_iff,
    Fields.map_eq_ok_iff]
  refine ⟨_, a.members.map Member.reread, ⟨_, a.message, ⟨_, a.vote.reread, ⟨_, .ofText a.kind.text,
    ⟨a.name, ?_, rfl⟩, ?_, rfl⟩, ?_, rfl⟩, ?_, rfl⟩, ?_, rfl⟩
  · exact make_of_field (.string a.name) (by simp) rfl
  · exact make_of_field a.kind.toJson (by simp) rfl
  · exact make_of_field a.vote.toJson (by simp) rfl
  · exact make_of_fieldSome .string (by simp) (by simp) fun _ _ => rfl
  · have hnone : (!a.members.isEmpty) = false → [] = a.members.map Member.reread := by
      cases a.members <;> simp
    exact make_of_fieldIf _ (by simp) hmembers hnone

theorem Decoder.eq_of_int64_ofJson {n k : Int} (h : int64.ofJson (.int n) = .ok k) : k = n := by
  change (if _ then Except.ok n else _) = _ at h
  split at h
  · exact (Except.ok.inj h).symm
  · cases h

theorem Spec.eq_reread_of_decodes {s s' : Spec} (h : Spec.decoder.ofJson s.toJson = .ok s') :
    s' = s.reread := by
  have happrovers : (Decoder.list Approver.decoder).ofJson (ofList Approver.toJson s.approvers) =
      .ok (s.approvers.map Approver.reread) :=
    Decoder.mapM_map_eq_ok fun a _ => a.decodes_as_reread
  simp only [decoder, toJson, ofFields_eq, Decoder.record_eq_ok_iff, Fields.seq_eq_ok_iff,
    Fields.map_eq_ok_iff] at h
  obtain ⟨_, description, ⟨_, required, ⟨approvers, hread, rfl⟩, hrequired, rfl⟩, hdescription,
    rfl⟩ := h
  have hread := (field_eq_ok_iff_of_present (m := ("approvers", ofList Approver.toJson s.approvers))
    (by simp)).mp hread
  have hrequired :=
    (field_eq_ok_iff_of_present (m := ("numberOfApprovalsRequired", .int s.required))
      (by simp)).mp hrequired
  obtain rfl : description = s.description :=
    Except.ok.inj <| hdescription.symm.trans <|
      make_of_fieldSome .string (by simp) (by simp) fun _ _ => rfl
  obtain rfl : required = s.required := Decoder.eq_of_int64_ofJson hrequired
  rw [happrovers] at hread
  cases hread
  rfl

namespace Guard
variable {old : Task} {new : Spec} {p : Principal} {o n : Approver}

/-- An approver's vote that decides nothing has not been brought by the edit. -/
theorem Edited.vote_eq_of_undecided (e : Edited p old new o n) (h : n.vote.isDecided = false) :
    n.vote = o.vote := by
  by_contra hvote
  obtain ⟨slot, -, hmem⟩ := e.mem_votes_of_vote hvote
  have hdecided := e.cleared.votes_decided _ hmem
  rw [h] at hdecided
  cases hdecided

theorem Edited.mem_of_undecided (e : Edited p old new o n) {m : Member} (hm : m ∈ n.members)
    (h : m.vote.isDecided = false) : m ∈ o.members := by
  by_contra hmoved
  have hdecided := e.cleared.votes_decided _ (e.member_moved hm hmoved).2.1
  rw [h] at hdecided
  cases hdecided

/-- A group's message stands as it was where no vote of the group has moved. -/
theorem Edited.message_eq_of_group (e : Edited p old new o n) (hkind : n.kind = .group)
    (hvote : n.vote = o.vote) (hmembers : n.members = o.members) : n.message = o.message := by
  by_contra hmessage
  rcases e.group_message hkind hmessage with hmoved | ⟨m, hm, -, hmoved⟩
  · exact hmoved hvote
  · exact hmoved (hmembers ▸ hm)

theorem Cleared.exists_change (h : Cleared old new p) : ∃ c, c ∈ old.spec.changesTo new := by
  have hown := h.changes_own
  rw [changesOwn, Bool.or_eq_true, List.any_eq_true, List.any_eq_true] at hown
  rcases hown with ⟨c, hc, -⟩ | ⟨group, hgroup, -⟩
  · exact ⟨c, (List.mem_filter.mp hc).1⟩
  · obtain ⟨c, hc, -⟩ := List.mem_filterMap.mp hgroup
    exact ⟨c, hc⟩

/-- An edit that changes nothing is no vote, so it is never cleared: there has to be something of
the principal's in it. -/
theorem Cleared.ne_spec (h : Cleared old new p) (hvalid : new.WellFormed) : new ≠ old.spec := by
  rintro rfl
  obtain ⟨c, hc⟩ := h.exists_change
  obtain ⟨o, ho, n, hn, hkey, hc⟩ := (Spec.mem_changesTo_iff h.sameShape).mp hc
  obtain rfl : o = n := List.inj_on_of_nodup_map hvalid.approvers_distinct ho hn hkey
  exact Change.not_mem_ofApprover_self (hvalid.approvers_wellFormed o ho).members_distinct hc

end Guard

namespace Ballot
variable {b : Ballot} {o n : Approver} {old : Task} {new : Spec}

/-- An undecided vote in a record that was there is the vote that was there. -/
theorem FillsRecord.reread_eq {ms ms' : List Member} (h : b.FillsRecord ms ms')
    (hdistinct : ((ms.map Member.reread).map (·.name)).Nodup)
    (hrecord : ⟨b.principal.username, b.vote.reread⟩ ∈ ms'.map Member.reread →
      ⟨b.principal.username, b.vote.reread⟩ ∈ ms.map Member.reread) :
    ms'.map Member.reread = ms.map Member.reread := by
  cases h with
  | moved before after m hname hfirst =>
    have hmem := hrecord (List.mem_map.mpr ⟨⟨b.principal.username, b.vote⟩, by simp, rfl⟩)
    have hsame : m.reread = ⟨b.principal.username, b.vote.reread⟩ :=
      List.inj_on_of_nodup_map hdistinct (List.mem_map_of_mem (by simp)) hmem hname
    rw [List.map_append, List.map_append, List.map_cons, List.map_cons, hsame]
    rfl
  | added _ hnone =>
    have hmem := hrecord (List.mem_map.mpr ⟨⟨b.principal.username, b.vote⟩, by simp, rfl⟩)
    obtain ⟨m, hm, hsame⟩ := List.mem_map.mp hmem
    exact absurd (congrArg Member.name hsame) (hnone m hm)

/-- The voter's own entry, pending before and after, with a message that was not there. -/
structure Remarks (b : Ballot) (o n : Approver) : Prop where
  owner : b.isUserEntry o = true
  pending : o.vote.text = "pending" ∧ b.vote.text = "pending"
  message : ∃ m, b.message = some m ∧ o.message ≠ some m ∧
    n = { o with vote := b.vote, message := some m }

/-- The specification `s` but for the message in the voter's pending entry. -/
structure Remarked (b : Ballot) (s s' : Spec) : Prop where
  kept : s' = { s with approvers := s'.approvers }
  entry : ∃ before o n after, s.approvers = before ++ o :: after ∧
    s'.approvers = before ++ n :: after ∧ b.Remarks o n
  tally_eq : s'.tally = s.tally

/-- Admission lets an undecided vote fill its slot only with a message in a pending entry. -/
theorem FillsSlot.remarks (h : b.FillsSlot o n) (hvote : b.vote.reread.isDecided = false)
    (e : Guard.Edited b.principal old new o.reread n.reread) (hmoved : n.reread ≠ o.reread) :
    b.Remarks o n := by
  cases h with
  | user howner =>
    have hsame : b.vote.reread = o.vote.reread := e.vote_eq_of_undecided hvote
    have hpending : b.vote.reread = .pending := Vote.eq_pending e.wellFormed.known hvote
    refine ⟨howner, ⟨?_, Vote.text_of_reread hpending⟩, ?_⟩
    · exact Vote.text_of_reread (hsame.symm.trans hpending)
    have hmessage : b.message.or o.message ≠ o.message := fun hmessage =>
      hmoved ((Approver.mk.injEq ..).mpr ⟨rfl, rfl, hsame, hmessage, rfl⟩)
    cases hm : b.message with
    | none => simp [hm] at hmessage
    | some m =>
      rw [hm, Option.some_or] at hmessage
      exact ⟨m, rfl, hmessage.symm, rfl⟩
  | group ms howner hrecord =>
    have hgroup : Approver.Kind.ofText o.kind.text = .group := by
      rw [(isOwnGroup_iff.mp howner).1]
      rfl
    have hsame := e.vote_eq_of_undecided hvote
    have hmembers := hrecord.reread_eq e.keepsMembers.old_distinct
      fun hm => e.mem_of_undecided hm hvote
    have hmessage := e.message_eq_of_group hgroup hsame hmembers
    exact absurd ((Approver.mk.injEq ..).mpr ⟨rfl, rfl, hsame, hmessage, hmembers⟩) hmoved

theorem Remarks.approving_eq (h : b.Remarks o n) : n.approving = o.approving := by
  obtain ⟨m, -, -, hn⟩ := h.message
  have hold : o.vote ≠ .approve := Vote.ne_of_text h.pending.1 (by decide)
  have hnew : b.vote ≠ .approve := Vote.ne_of_text h.pending.2 (by decide)
  rw [hn]
  simp [Approver.approving, (isUserEntry_iff.mp h.owner).1, hold, hnew]

theorem Remarks.rejects_eq (h : b.Remarks o n) : n.rejects = o.rejects := by
  obtain ⟨m, -, -, hn⟩ := h.message
  have hold : o.vote ≠ .reject := Vote.ne_of_text h.pending.1 (by decide)
  have hnew : b.vote ≠ .reject := Vote.ne_of_text h.pending.2 (by decide)
  rw [hn]
  simp [Approver.rejects, hold, hnew]

theorem Fills.remarked_of_remarks {s s' : Spec} (h : b.Fills s s')
    (hslot : ∀ before o n after, s.approvers = before ++ o :: after →
      s'.approvers = before ++ n :: after → b.FillsSlot o n → b.Remarks o n) :
    b.Remarked s s' := by
  obtain ⟨before, o, n, after, hold, hnew, hfills, -⟩ := h.slot
  have hremarks := hslot before o n after hold hnew hfills
  refine ⟨?_, ⟨before, o, n, after, hold, hnew, hremarks⟩, ?_⟩
  · rw [← h.required_eq, ← h.description_eq]
  · simp [Spec.tally, hold, hnew, hremarks.approving_eq, hremarks.rejects_eq]

/-- Of the votes that decide nothing, admission lets through no more than a message. -/
theorem Proposes.remarked {read proposed : Task} (h : b.Proposes read proposed)
    (hvote : b.vote.reread.isDecided = false) : b.Remarked read.spec proposed.spec := by
  obtain ⟨new, old, hnew, hold, hvalid, hcleared⟩ :=
    (Admission.respond_update_allowed_iff rfl).mp h.allowed
  -- the guard is given what is read back of the two, not the specifications themselves
  replace hold := Spec.eq_reread_of_decodes (Task.decoder_eq_ok hold).1
  replace hnew := Spec.eq_reread_of_decodes (Task.decoder_eq_ok hnew).1
  have hfills := fills_of_edit? h.edit
  refine hfills.remarked_of_remarks fun before o n after hread hproposed hslot => ?_
  have e : Guard.Edited b.principal old new.spec o.reread n.reread := by
    refine ⟨hcleared, hvalid, ?_, ?_, ?_⟩
    · simp [hold, Spec.reread, hread]
    · simp [hnew, Spec.reread, hproposed]
    · cases hslot <;> rfl
  refine hslot.remarks hvote e fun hsame => hcleared.ne_spec hvalid ?_
  rw [hold, hnew]
  simp [Spec.reread, hread, hproposed, hsame, hfills.required_eq, hfills.description_eq]

/-- A vote whose text is neither `approve` nor `reject` returns an error and leaves the store as it
was, whatever is stored there: unless it is `pending`, as the vote in the voter's own entry is
already, and comes with a message that the entry does not have. Then it writes at most that message
and the next version. Amid other writers it writes no more than that either.

The text decides, since a vote is reviewed as it is read back from its text. An unknown value that
is spelled like a decision, such as `Vote.other "approve"`, is therefore reviewed as that decision
and is left out here, although it counts as no vote once it is stored. -/
theorem undecided_vote_writes_at_most_a_message (b : Ballot) (retries : Nat)
    (happrove : b.vote.text ≠ "approve") (hreject : b.vote.text ≠ "reject") :
    (∀ s, (∃ e, b.cast retries s = (.error e, s)) ∨
      ∃ old t, s.get? b.key = some old ∧ b.cast retries s = (.ok t, s.put t) ∧
        b.Remarked old.spec t.spec ∧
        t = { old with
          spec := t.spec
          metadata.version := Store.nextVersion old.metadata.version }) ∧
    (∀ s w call landed, Traffic.Run (fun _ => True) Store.Write (.start s) w →
      w.store.HasRoom b.key → ⟨.vote b retries, call, landed⟩ ∈ w.clients →
      ∀ write ∈ landed, ∃ old t, write.1.get? b.key = some old ∧ write.2 = write.1.put t ∧
        b.Remarked old.spec t.spec ∧
        t = { old with spec := t.spec, metadata.version := old.metadata.version + 1 }) := by
  have hvote : b.vote.reread.isDecided = false := by
    cases hread : b.vote.reread with
    | approve => exact absurd (Vote.text_of_reread hread) happrove
    | reject => exact absurd (Vote.text_of_reread hread) hreject
    | _ => rfl
  constructor
  · intro s
    cases hpropose : b.propose s with
    | error e => exact .inl ⟨e, cast_of_refused retries hpropose⟩
    | ok proposed =>
      obtain ⟨read, hread, hproposes⟩ := propose_eq_ok_iff.mp hpropose
      refine .inr ⟨read, Store.edited read proposed, hread,
        cast_of_proposes retries hread hproposes, hproposes.remarked hvote, ?_⟩
      rw [Store.edited, hproposes.kept]
  · intro s w call landed hrun hroom hclient write hwrite
    have hstage : b.Stage retries w.store call landed :=
      (hrun.staged (fun _ _ _ _ hwrite => hwrite.advances) _ hclient).2 hroom
    cases hstage with
    | @landed before after t hlands =>
      obtain ⟨old, spec, hold, hedit, hallowed, rfl, hafter⟩ := hlands
      obtain rfl := List.mem_singleton.mp hwrite
      have hproposes : b.Proposes old { old with spec } := ⟨hedit, rfl, hallowed⟩
      exact ⟨old, _, hold, hafter, hproposes.remarked hvote, rfl⟩
    | _ => cases hwrite

/-- A gate with an entry of its own for ann, and a team that she is on. -/
def sharedGate (version : Nat) (message : Option String) : Task where
  metadata := { name := "gate", version }
  spec :=
    { approvers :=
        [{ name := "team", kind := .group, members := [⟨"ann", .pending⟩] },
          { name := "ann", message }]
      required := 1 }

/-- What ann has to say before she decides. -/
def remark : Ballot := ⟨"gate", ⟨"ann", ["team"]⟩, .pending, some "looking into it"⟩

theorem remark_proposes :
    remark.Proposes (sharedGate 1 none) (sharedGate 1 (some "looking into it")) := by
  have hchanges : (sharedGate 1 none).spec.changesTo
      (sharedGate 1 (some "looking into it")).spec = [.message ⟨.user, "ann"⟩] := by cbv
  have hauthorized : authorize (sharedGate 1 none) (sharedGate 1 (some "looking into it")).spec
      remark.principal = .allow := by
    simp only [authorize, Guard.votes, Guard.groupMessages, Guard.plainChanges, Guard.changesOwn,
      Guard.changesForeign, hchanges]
    decide
  exact ⟨rfl, rfl, Admission.update_allowed_of_authorized rfl rfl (by decide) hauthorized⟩

/-- The remark is in her entry afterwards, and nothing else is. -/
theorem remark_is_all_that_is_written :
    remark.vote.text ≠ "approve" ∧ remark.vote.text ≠ "reject" ∧
    remark.cast 0 (Store.empty.put (sharedGate 1 none)) =
      (.ok (sharedGate 2 (some "looking into it")),
        (Store.empty.put (sharedGate 1 none)).put (sharedGate 2 (some "looking into it"))) ∧
    remark.Remarked (sharedGate 1 none).spec (sharedGate 2 (some "looking into it")).spec := by
  have hcast : remark.cast 0 (Store.empty.put (sharedGate 1 none)) =
      (.ok (sharedGate 2 (some "looking into it")), _) := cast_of_proposes 0 rfl remark_proposes
  refine ⟨by decide, by decide, hcast, ?_⟩
  rcases (undecided_vote_writes_at_most_a_message remark 0 (by decide) (by decide)).1
      (Store.empty.put (sharedGate 1 none)) with ⟨e, herror⟩ | ⟨old, t, hold, hok, hremarked, -⟩
  · rw [hcast] at herror
    cases herror
  · rw [hcast] at hok
    cases hok
    obtain rfl : sharedGate 1 none = old := Option.some.inj hold
    exact hremarked

/-- Not every vote that decides nothing is refused: a pending vote with something to say leaves the
message in the voter's own entry. -/
theorem remark_is_not_refused :
    ¬ ∀ (b : Ballot) (retries : Nat) (s : Store), b.vote.text ≠ "approve" →
      b.vote.text ≠ "reject" → ∃ e, b.cast retries s = (.error e, s) := by
  intro hrefused
  obtain ⟨e, herror⟩ := hrefused remark 0 (Store.empty.put (sharedGate 1 none)) (by decide)
    (by decide)
  rw [cast_of_proposes 0 rfl remark_proposes] at herror
  cases herror

end Ballot
end Quorum
