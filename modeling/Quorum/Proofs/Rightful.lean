import Quorum.Proofs.RoundTrip
import Quorum.Proofs.Slot
import Quorum.Proofs.Stage

/-!
# A rightful vote is admitted

The edit of a vote changes one approver, and in it only what the voter may change: each change is
a vote in the voter's slot or goes with it (`Ballot.Marks.goesWith`). So the guard has nothing
to say against the first vote of anybody who has a slot, as long as the task is undecided
(`Ballot.cleared_of_undecided`), and the vote that is proposed is the one that is admitted
(`Ballot.proposes_of_undecided`).
-/
namespace Quorum
open Guard

/-- The slot that the guard sees an approver as. -/
def Approver.slot (a : Approver) : Guard.Slot := if a.isGroup then .group a.name else .user

theorem Change.not_mem_ofApprover_self {a : Approver} (distinct : (a.members.map (·.name)).Nodup)
    {c : Change} : c ∉ ofApprover a a := by
  have hkeeps : a.KeepsMembers a := ⟨distinct, distinct, fun m hm => ⟨m, hm, rfl⟩⟩
  rw [mem_ofApprover_iff hkeeps]
  rintro (⟨hvote, -⟩ | ⟨hmessage, -⟩ | ⟨m, hm, ⟨hadded, -⟩ | ⟨x, hx, hname, hvote, -⟩⟩)
  · exact hvote rfl
  · exact hmessage rfl
  · exact hadded m hm rfl
  · exact hvote (congrArg Member.vote (List.inj_on_of_nodup_map distinct hx hm hname))

theorem Vote.isKnown_of_isDecided {v : Vote} (h : v.isDecided = true) : v.isKnown = true := by
  cases v with
  | approve => rfl
  | reject => rfl
  | pending => cases h
  | other => cases h

/-- A valid specification is read as it was written. -/
theorem Spec.WellFormed.legible {s : Spec} (h : s.WellFormed) : s.Legible := by
  intro a ha
  have hwell := h.approvers_wellFormed a ha
  refine ⟨?_, Vote.legible_of_isKnown hwell.known, fun m hm => ?_⟩
  · rcases hwell.named with ⟨hkind, -⟩ | ⟨hkind, -⟩ <;> rw [hkind] <;> rfl
  · exact Vote.legible_of_isKnown (hwell.members_known m hm)

namespace Ballot
variable {b : Ballot} {s : Spec} {t : Task} {o : Approver} {c : Change}

theorem keepsMembers_mark (distinct : (o.members.map (·.name)).Nodup) :
    o.KeepsMembers (b.mark o) where
  old_distinct := distinct
  new_distinct := members_mark_distinct distinct
  kept m hm := by
    by_cases hkind : o.kind = .group
    · by_cases hname : m.name = b.principal.username
      · exact ⟨_, (mem_members_mark_iff distinct hkind).mpr (.inl rfl), hname.symm⟩
      · exact ⟨m, (mem_members_mark_iff distinct hkind).mpr (.inr ⟨hm, hname⟩), rfl⟩
    · exact ⟨m, by rwa [members_mark_of_not_group hkind], rfl⟩

/-- All changes are in the approver that is marked. -/
theorem mem_changesTo_markAt_iff (hvalid : s.WellFormed) (ho : o ∈ s.approvers) :
    c ∈ s.changesTo (b.markAt s o) ↔ c ∈ Change.ofApprover o (b.mark o) := by
  have distinct := hvalid.approvers_distinct
  rw [Spec.mem_changesTo_iff (sameShape_markAt distinct)]
  constructor
  · intro h
    obtain ⟨a, ha, n, hn, hkey, hc⟩ := h
    rcases (mem_markAt_iff ho).mp hn with rfl | ⟨hn, -⟩
    · rw [key_mark] at hkey
      rwa [List.inj_on_of_nodup_map distinct ha ho hkey] at hc
    · obtain rfl : a = n := List.inj_on_of_nodup_map distinct ha hn hkey
      have hmembers := (hvalid.approvers_wellFormed a ha).members_distinct
      exact absurd hc (Change.not_mem_ofApprover_self hmembers)
  · intro hc
    exact ⟨o, ho, b.mark o, (mem_markAt_iff ho).mpr (.inl rfl), key_mark.symm, hc⟩

/-- A vote or a message, or, in a group, the voter's record, added or moved. -/
theorem mem_ofApprover_mark (distinct : (o.members.map (·.name)).Nodup)
    (hc : c ∈ Change.ofApprover o (b.mark o)) :
    (o.vote ≠ b.vote ∧ c = .vote o.key b.vote) ∨ c = .message o.key ∨
      o.kind = .group ∧ (c = .memberAdded o.name b.principal.username b.vote ∨
        c = .memberVote o.name b.principal.username b.vote) := by
  rcases (Change.mem_ofApprover_iff (keepsMembers_mark distinct)).mp hc with
    ⟨hvote, rfl⟩ | ⟨-, rfl⟩ | ⟨m, hm, hmember⟩
  · rw [vote_mark] at hvote ⊢
    exact .inl ⟨hvote, by rw [key_mark]⟩
  · exact .inr (.inl (by rw [key_mark]))
  · by_cases hkind : o.kind = .group
    · rcases (mem_members_mark_iff distinct hkind).mp hm with rfl | ⟨hold, -⟩
      · rcases hmember with ⟨-, rfl⟩ | ⟨-, -, -, -, rfl⟩
        · exact .inr (.inr ⟨hkind, .inl (by rw [name_mark])⟩)
        · exact .inr (.inr ⟨hkind, .inr (by rw [name_mark])⟩)
      · rcases hmember with ⟨hadded, -⟩ | ⟨x, hx, hname, hvote, -⟩
        · exact absurd rfl (hadded m hold)
        · rw [List.inj_on_of_nodup_map distinct hx hold hname] at hvote
          exact absurd rfl hvote
    · rw [members_mark_of_not_group hkind] at hm
      rcases hmember with ⟨hadded, -⟩ | ⟨x, hx, hname, hvote, -⟩
      · exact absurd rfl (hadded m hm)
      · rw [List.inj_on_of_nodup_map distinct hx hm hname] at hvote
        exact absurd rfl hvote

/-- A decided vote of a voter who had not decided shows in their entry or their record. -/
theorem exists_change_mark (hwell : o.WellFormed) (hundecided : o.UndecidedBy b.principal)
    (hown : b.isUserEntry o = true ∨ b.isOwnGroup o = true) (hdecided : b.vote.isDecided = true) :
    ∃ c ∈ Change.ofApprover o (b.mark o),
      o.kind = .user ∧ c = .vote o.key b.vote ∨
      o.kind = .group ∧ (c = .memberAdded o.name b.principal.username b.vote ∨
        c = .memberVote o.name b.principal.username b.vote) := by
  have distinct := hwell.members_distinct
  have hkeeps : o.KeepsMembers (b.mark o) := keepsMembers_mark distinct
  rcases hown with huser | hgroup
  · obtain ⟨hkind, hname⟩ := isUserEntry_iff.mp huser
    have hvote : o.vote ≠ b.vote := by
      intro heq
      rw [← heq, hundecided.entry hkind hname] at hdecided
      cases hdecided
    refine ⟨.vote o.key b.vote, (Change.mem_ofApprover_iff hkeeps).mpr (.inl ?_), .inl ⟨hkind, rfl⟩⟩
    rw [vote_mark, key_mark]
    exact ⟨hvote, rfl⟩
  · have hkind := (isOwnGroup_iff.mp hgroup).1
    have hrecord := (mem_members_mark_iff (b := b) distinct hkind).mpr (.inl rfl)
    by_cases hjoins : ∀ m ∈ o.members, m.name ≠ b.principal.username
    · refine ⟨.memberAdded o.name b.principal.username b.vote, ?_, .inr ⟨hkind, .inl rfl⟩⟩
      refine (Change.mem_ofApprover_iff hkeeps).mpr (.inr (.inr ⟨_, hrecord, .inl ⟨hjoins, ?_⟩⟩))
      rw [name_mark]
    · simp only [not_forall, not_not] at hjoins
      obtain ⟨m, hm, hname⟩ := hjoins
      have hvote : m.vote ≠ b.vote := by
        intro heq
        rw [← heq, hundecided.record hkind m hm hname] at hdecided
        cases hdecided
      refine ⟨.memberVote o.name b.principal.username b.vote, ?_, .inr ⟨hkind, .inr rfl⟩⟩
      refine (Change.mem_ofApprover_iff hkeeps).mpr
        (.inr (.inr ⟨_, hrecord, .inr ⟨m, hm, hname, hvote, ?_⟩⟩))
      rw [name_mark]

theorem belongsTo_of_own (hvalid : s.WellFormed) (ho : o ∈ s.approvers)
    (hgroup : b.isOwnGroup o = true) : belongsTo s o.name b.principal = true := by
  obtain ⟨hkind, hbelongs⟩ := isOwnGroup_iff.mp hgroup
  exact (Guard.belongsTo_iff hvalid.approvers_distinct ho hkind).mpr hbelongs

/-- A group's vote moves together with the voter's record. -/
theorem ownsGroupVote_markAt (hvalid : s.WellFormed) (ho : o ∈ s.approvers)
    (hkind : o.kind = .group) (hundecided : o.UndecidedBy b.principal)
    (hdecided : b.vote.isDecided = true) :
    ownsGroupVote s (b.markAt s o) o.name b.principal.username b.vote = true := by
  have distinct := (hvalid.approvers_wellFormed o ho).members_distinct
  have hold : s.approver? .group o.name = some o :=
    (Spec.approver?_eq_some_iff hvalid.approvers_distinct).mpr ⟨ho, by rw [Approver.key, hkind]⟩
  have hnew : (b.markAt s o).approver? .group o.name = some (b.mark o) := by
    refine (Spec.approver?_eq_some_iff (by simpa using hvalid.approvers_distinct)).mpr ⟨?_, ?_⟩
    · exact (mem_markAt_iff ho).mpr (.inl rfl)
    · rw [key_mark, Approver.key, hkind]
  have hafter : (b.mark o).member? b.principal.username = some ⟨b.principal.username, b.vote⟩ :=
    (Approver.member?_eq_some_iff (members_mark_distinct distinct)).mpr
      ⟨(mem_members_mark_iff distinct hkind).mpr (.inl rfl), rfl⟩
  have hbefore : (o.member? b.principal.username).map (·.vote) ≠ some b.vote := by
    intro h
    obtain ⟨m, hm, hvote⟩ := Option.map_eq_some_iff.mp h
    obtain ⟨hm, hname⟩ := (Approver.member?_eq_some_iff distinct).mp hm
    rw [← hvote, hundecided.record hkind m hm hname] at hdecided
    cases hdecided
  simp [ownsGroupVote, hold, hnew, hafter, hbefore]

/-- A decided vote with a slot to go to, by somebody who has not decided anywhere yet. The
specification is valid, so the slot is the only thing that the vote changes. -/
structure Marks (b : Ballot) (s : Spec) (o : Approver) : Prop where
  valid : s.WellFormed
  slot : b.slot? s = some o
  undecided : s.UndecidedBy b.principal
  decided : b.vote.isDecided = true

namespace Marks

theorem mem (h : b.Marks s o) : o ∈ s.approvers := (own_of_slot? h.slot).1

theorem own (h : b.Marks s o) : b.isUserEntry o = true ∨ b.isOwnGroup o = true :=
  (own_of_slot? h.slot).2

theorem wellFormed (h : b.Marks s o) : o.WellFormed := h.valid.approvers_wellFormed o h.mem

theorem isOwnGroup (h : b.Marks s o) (hkind : o.kind = .group) : b.isOwnGroup o = true := by
  rcases h.own with huser | hgroup
  · cases hkind.symm.trans (isUserEntry_iff.mp huser).1
  · exact hgroup

/-- What an own change votes is the vote that is cast, in the voter's slot. A message of the group
is not judged by itself. -/
theorem goesWith (h : b.Marks s o) (hc : c ∈ s.changesTo (b.markAt s o)) :
    GoesWith s (b.markAt s o) b.principal o.slot b.vote c := by
  rw [mem_changesTo_markAt_iff h.valid h.mem] at hc
  rcases h.own with huser | hgroup
  · obtain ⟨hkind, hname⟩ := isUserEntry_iff.mp huser
    have hkey : o.key = ⟨.user, b.principal.username⟩ := by rw [Approver.key, hkind, hname]
    have hslot : o.slot = .user := by simp [Approver.slot, Approver.isGroup, hkind]
    rcases mem_ofApprover_mark h.wellFormed.members_distinct hc with
      ⟨-, rfl⟩ | rfl | ⟨hgroup, -⟩
    · exact .inl ⟨by simp [owns, hkey], by simp [Guard.Slot.ofChange?, hkey, hslot]⟩
    · exact .inl ⟨by simp [owns, hkey], by simp [Guard.Slot.ofChange?]⟩
    · cases hkind.symm.trans hgroup
  · have hkind := (isOwnGroup_iff.mp hgroup).1
    have hkey : o.key = ⟨.group, o.name⟩ := by rw [Approver.key, hkind]
    have hslot : o.slot = .group o.name := by simp [Approver.slot, Approver.isGroup, hkind]
    have hbelongs := belongsTo_of_own h.valid h.mem hgroup
    rcases mem_ofApprover_mark h.wellFormed.members_distinct hc with
      ⟨-, rfl⟩ | rfl | ⟨-, rfl | rfl⟩
    · have howns := ownsGroupVote_markAt h.valid h.mem hkind (h.undecided o h.mem) h.decided
      exact .inl ⟨by simp [owns, hkey, hbelongs, howns],
        by simp [Guard.Slot.ofChange?, hkey, hslot]⟩
    · exact .inr ⟨o.name, by simp [groupMessage?, hkey, hbelongs], hslot⟩
    · exact .inl ⟨by simp [owns, hbelongs], by simp [Guard.Slot.ofChange?, hslot]⟩
    · exact .inl ⟨by simp [owns], by simp [Guard.Slot.ofChange?, hslot]⟩

/-- The vote shows: as the voter's entry, or as their record in the group. -/
theorem exists_cast (h : b.Marks s o) :
    ∃ c ∈ s.changesTo (b.markAt s o), owns s (b.markAt s o) b.principal c = true ∧
      Guard.Slot.ofChange? c = some (o.slot, b.vote) := by
  obtain ⟨c, hc, hcases⟩ :=
    exists_change_mark h.wellFormed (h.undecided o h.mem) h.own h.decided
  obtain ⟨v, hv⟩ : ∃ v, Guard.Slot.ofChange? c = some v := by
    rcases hcases with ⟨hkind, rfl⟩ | ⟨-, rfl | rfl⟩
    · exact ⟨(.user, b.vote), by simp [Guard.Slot.ofChange?, Approver.key, hkind]⟩
    · exact ⟨_, rfl⟩
    · exact ⟨_, rfl⟩
  have hmem := (mem_changesTo_markAt_iff h.valid h.mem).mpr hc
  rcases h.goesWith hmem with ⟨howns, hvote⟩ | ⟨group, hmessage, -⟩
  · exact ⟨c, hmem, howns, hvote v hv ▸ hv⟩
  · rw [groupMessage?_eq_none_of_slot hv] at hmessage
    cases hmessage

theorem eligible (h : b.Marks s o) : Guard.eligible s b.principal = true := by
  rw [Guard.eligible, Bool.or_eq_true, List.any_eq_true]
  refine .inr ⟨o, h.mem, ?_⟩
  rcases h.own with huser | hgroup
  · obtain ⟨hkind, hname⟩ := isUserEntry_iff.mp huser
    simp [hkind, hname]
  · simp [(isOwnGroup_iff.mp hgroup).1, belongsTo_of_own h.valid h.mem hgroup]

end Marks

/-- Nobody is refused their first vote on an open task. -/
theorem cleared_of_undecided (h : b.Marks t.spec o) (hstatus : t.status.state.isFinal = false)
    (htally : t.spec.tally.meets t.spec.required = false)
    (hrecorded : recorded t b.principal = []) :
    Cleared t (b.markAt t.spec o) b.principal :=
  cleared_of_vote o.slot b.vote rfl hstatus htally h.eligible (by simp [hrecorded])
    (by simp [hrecorded]) h.decided h.exists_cast fun _ hc => h.goesWith hc

/-- Whoever has not decided can propose their vote, if the task is read as it was written. -/
theorem proposes_of_undecided (h : b.Marks t.spec o) (hstatus : t.status.state.isFinal = false)
    (htally : t.spec.tally.meets t.spec.required = false)
    (hrecorded : recorded t b.principal = []) (hname : UserName b.principal.username)
    (hlegible : t.Legible) : b.Proposes t { t with spec := b.markAt t.spec o } := by
  have hvalid : (b.markAt t.spec o).WellFormed :=
    wellFormed_markAt h.valid h.slot hname (Vote.isKnown_of_isDecided h.decided)
  have hnew : ({ t with spec := b.markAt t.spec o } : Task).Legible :=
    ⟨hlegible.version, hlegible.created, hlegible.required, hvalid.legible,
      hlegible.status⟩
  refine ⟨?_, rfl, ?_⟩
  · rw [edit?_eq h.valid.approvers_distinct, h.slot, Option.map_some]
  · exact Admission.update_allowed_of_authorized (Task.ofJson_toJson hlegible)
      (Task.ofJson_toJson hnew) (Spec.problems_eq_nil_iff.mpr hvalid)
      (authorize_eq_allow_iff.mpr (cleared_of_undecided h hstatus htally hrecorded))

end Ballot
end Quorum
