import Quorum.Guard
import Quorum.Proofs.Change

/-!
# What an authorised edit has passed

`authorize_eq_allow_iff` lists the checks, and `Cleared` names them. The rest of the module reads
them change by change: every change is the principal's own or a message that goes with their vote
(`Cleared.own_or_message`), the specification keeps its shape (`Cleared.sameShape`), and all votes
of the edit are one vote in one slot (`Cleared.votes_eq`).
-/
namespace Quorum
namespace Guard

/-- The checks that an edit has passed once it is allowed, one field for each. Results about
admitted edits start from here and never unfold `authorize`. -/
structure Cleared (old : Task) (new : Spec) (p : Principal) : Prop where
  status_open : old.status.state.isFinal = false
  tally_open : old.spec.tally.meets old.spec.required = false
  is_eligible : eligible old.spec p = true
  votes_decided : ∀ v ∈ votes old.spec new p, v.2.isDecided = true
  not_rejected : .rejected ∉ recorded old p
  not_approved_again :
    .approved ∈ recorded old p → ∀ slot, (slot, .approve) ∉ votes old.spec new p
  changes_own : changesOwn old.spec new p = true
  changes_nothing_foreign : changesForeign old.spec new p = false
  votes_single : isSingleVote (votes old.spec new p) = true

/-- An edit is allowed exactly if it has passed all checks, whatever their order. The order only
decides which refusal is given. -/
theorem authorize_eq_allow_iff {old : Task} {new : Spec} {p : Principal} :
    authorize old new p = .allow ↔ Cleared old new p := by
  constructor
  · intro h
    simp only [authorize] at h
    split at h
    · cases h
    next hopen =>
    split at h
    · cases h
    next heligible =>
    split at h
    · cases h
    next hdecided =>
    split at h
    · cases h
    next hrejected =>
    split at h
    · cases h
    next hagain =>
    split at h
    · cases h
    next hown =>
    simp only [Bool.or_eq_true, not_or, Bool.not_eq_true, Bool.not_eq_eq_eq_not] at hopen hown
    obtain ⟨⟨hown, hforeign⟩, hsingle⟩ := hown
    refine ⟨hopen.1, hopen.2, by simpa using heligible, ?_, by simpa using hrejected, ?_,
      by simpa using hown, hforeign, by simpa using hsingle⟩
    · simpa using List.find?_eq_none.mp hdecided
    · simpa using hagain
  · intro h
    obtain ⟨hstatus, htally, heligible, hdecided, hrejected, hagain, hown, hforeign, hsingle⟩ := h
    have hfind : (votes old.spec new p).find? (fun v => !v.2.isDecided) = none := by
      simpa [List.find?_eq_none] using hdecided
    simp only [authorize, hstatus, htally, heligible, hfind, hown, hforeign, hsingle]
    simpa [hrejected] using hagain

section
variable {old new : Spec} {p : Principal}

theorem groupMessage?_eq_none_of_slot {c : Change} {vote : Slot × Vote}
    (h : Slot.ofChange? c = some vote) : groupMessage? old p c = none := by
  cases c with
  | message key => simp [Slot.ofChange?] at h
  | _ => rfl

/-- The votes of an edit come from own changes. A group's message is no vote, so leaving such
messages out first loses none. -/
theorem mem_votes_iff {vote : Slot × Vote} :
    vote ∈ votes old new p ↔
      ∃ c ∈ old.changesTo new, owns old new p c = true ∧ Slot.ofChange? c = some vote := by
  simp only [votes, plainChanges, List.mem_filterMap, List.mem_filter, and_assoc]
  constructor
  · intro h
    obtain ⟨c, hc, -, howns, hslot⟩ := h
    exact ⟨c, hc, howns, hslot⟩
  · intro h
    obtain ⟨c, hc, howns, hslot⟩ := h
    exact ⟨c, hc, by simp [groupMessage?_eq_none_of_slot hslot], howns, hslot⟩

theorem votedInGroup_iff {group : String} :
    votedInGroup (votes old new p) group = true ↔
      ∃ v, (Slot.group group, v) ∈ votes old new p := by
  simp [votedInGroup]

theorem owns_of_isStructural {c : Change} (h : c.isStructural = true) :
    owns old new p c = false := by
  cases c <;> first | rfl | simp [Change.isStructural] at h

theorem groupMessage?_of_isStructural {c : Change} (h : c.isStructural = true) :
    groupMessage? old p c = none := by
  cases c <;> first | rfl | simp [Change.isStructural] at h

theorem belongsTo_iff (distinct : (old.approvers.map Approver.key).Nodup) {o : Approver}
    (ho : o ∈ old.approvers) (hkind : o.kind = .group) :
    belongsTo old o.name p = true ↔
      p.claims o.name = true ∨ ∃ m ∈ o.members, m.name = p.username := by
  have hfind : old.approver? .group o.name = some o :=
    (Spec.approver?_eq_some_iff distinct).mpr ⟨ho, by rw [Approver.key, hkind]⟩
  rw [belongsTo, hfind, Bool.or_eq_true, Option.any_some, Approver.member?_isSome_iff]

/-- A single vote may show up any number of times, as long as it is the same slot and the same
value. -/
theorem isSingleVote_iff {vs : List (Slot × Vote)} :
    isSingleVote vs = true ↔ ∀ v ∈ vs, ∀ w ∈ vs, v = w := by
  cases vs with
  | nil => simp [isSingleVote]
  | cons v vs =>
    simp only [isSingleVote, List.all_eq_true, decide_eq_true_eq]
    constructor
    · intro h
      have hall : ∀ w ∈ v :: vs, w = v := by
        rintro w (_ | ⟨_, hw⟩)
        · rfl
        · exact h w hw
      exact fun w hw x hx => (hall w hw).trans (hall x hx).symm
    · intro h w hw
      exact h w (List.mem_cons_of_mem v hw) v List.mem_cons_self

/-- What may stand beside the principal's vote `v` in `slot`: own changes that vote nothing else,
and messages of the group that the vote is cast in. -/
def GoesWith (old new : Spec) (p : Principal) (slot : Slot) (v : Vote) (c : Change) : Prop :=
  (owns old new p c = true ∧ ∀ w ∈ Slot.ofChange? c, w = (slot, v)) ∨
    ∃ group ∈ groupMessage? old p c, slot = .group group

instance (slot : Slot) (v : Vote) (c : Change) : Decidable (GoesWith old new p slot v c) :=
  inferInstanceAs (Decidable (_ ∨ _))

/-- A message of a group is nobody's own, so it is of the slot that the vote beside it is in. -/
theorem GoesWith.slot_eq {slot : Slot} {v : Vote} {c : Change} {group : String}
    (h : GoesWith old new p slot v c) (hmessage : groupMessage? old p c = some group) :
    slot = .group group := by
  rcases h with ⟨howns, -⟩ | ⟨group', hmessage', hslot⟩
  · cases c with
    | message key =>
      obtain ⟨kind, name⟩ := key
      cases kind <;> simp [owns, groupMessage?] at howns hmessage
    | _ => simp [groupMessage?] at hmessage
  · rw [hslot, Option.some.inj (hmessage'.symm.trans hmessage)]

theorem GoesWith.vote_eq {slot : Slot} {v : Vote} {c : Change} {w : Slot × Vote}
    (h : GoesWith old new p slot v c) (hw : Slot.ofChange? c = some w) : w = (slot, v) := by
  rcases h with ⟨-, hvote⟩ | ⟨group, hmessage, -⟩
  · exact hvote w hw
  · rw [groupMessage?_eq_none_of_slot hw] at hmessage
    cases hmessage

end

section
variable {old : Task} {new : Spec} {p : Principal}

/-- An edit that is one decided vote and what goes with it has passed, if the task is undecided, the
principal has a slot, and nothing on record is against the vote. -/
theorem cleared_of_vote (slot : Slot) (v : Vote) {cs : List Change}
    (hchanges : old.spec.changesTo new = cs)
    (hstatus : old.status.state.isFinal = false)
    (htally : old.spec.tally.meets old.spec.required = false)
    (heligible : eligible old.spec p = true)
    (hrejected : .rejected ∉ recorded old p)
    (hagain : .approved ∈ recorded old p → v ≠ .approve)
    (hdecided : v.isDecided = true)
    (hcast : ∃ c ∈ cs, owns old.spec new p c = true ∧ Slot.ofChange? c = some (slot, v))
    (hgoes : ∀ c ∈ cs, GoesWith old.spec new p slot v c) : Cleared old new p := by
  subst hchanges
  have hvote : (slot, v) ∈ votes old.spec new p := mem_votes_iff.mpr hcast
  have hvotes : ∀ w ∈ votes old.spec new p, w = (slot, v) := by
    intro w hw
    obtain ⟨c, hc, -, hslot⟩ := mem_votes_iff.mp hw
    exact (hgoes c hc).vote_eq hslot
  refine ⟨hstatus, htally, heligible, ?_, hrejected, ?_, ?_, ?_, ?_⟩
  · intro w hw
    rw [hvotes w hw]
    exact hdecided
  · intro happroved slot' hslot'
    exact hagain happroved (congrArg Prod.snd (hvotes _ hslot')).symm
  · obtain ⟨c, hc, howns, hslot⟩ := hcast
    rw [changesOwn, Bool.or_eq_true, List.any_eq_true]
    refine .inl ⟨c, List.mem_filter.mpr ⟨hc, ?_⟩, howns⟩
    rw [groupMessage?_eq_none_of_slot hslot, Option.isNone_none]
  · rw [changesForeign, Bool.or_eq_false_iff, List.any_eq_false, List.any_eq_false]
    constructor
    · intro c hc
      obtain ⟨hc, hplain⟩ := List.mem_filter.mp hc
      rcases hgoes c hc with ⟨howns, -⟩ | ⟨group, hmessage, -⟩
      · simp [howns]
      · rw [hmessage] at hplain
        cases hplain
    · intro group hmem
      obtain ⟨c, hc, hmessage⟩ := List.mem_filterMap.mp hmem
      have hvoted : votedInGroup (votes old.spec new p) group = true :=
        votedInGroup_iff.mpr ⟨v, (hgoes c hc).slot_eq hmessage ▸ hvote⟩
      simp [hvoted]
  · exact isSingleVote_iff.mpr fun w hw x hx => (hvotes w hw).trans (hvotes x hx).symm

end

namespace Cleared
variable {old : Task} {new : Spec} {p : Principal}

/-- There is no third kind of change: a cleared edit votes in a slot of the principal, or changes
the message that goes with such a vote. -/
theorem own_or_message (h : Cleared old new p) {c : Change} (hc : c ∈ old.spec.changesTo new) :
    owns old.spec new p c = true ∨
      ∃ group, groupMessage? old.spec p c = some group ∧
        ∃ v, (Slot.group group, v) ∈ votes old.spec new p := by
  have hforeign := h.changes_nothing_foreign
  simp only [changesForeign, Bool.or_eq_false_iff, List.any_eq_false] at hforeign
  cases hmessage : groupMessage? old.spec p c with
  | none =>
    have hplain : c ∈ plainChanges old.spec new p :=
      List.mem_filter.mpr ⟨hc, by simp [hmessage]⟩
    exact .inl (by simpa using hforeign.1 c hplain)
  | some group =>
    have hmem : group ∈ groupMessages old.spec new p :=
      List.mem_filterMap.mpr ⟨c, hc, hmessage⟩
    have hvoted : votedInGroup (votes old.spec new p) group = true := by
      simpa using hforeign.2 group hmem
    exact .inr ⟨group, rfl, votedInGroup_iff.mp hvoted⟩

theorem owns_of_no_message (h : Cleared old new p) {c : Change}
    (hc : c ∈ old.spec.changesTo new) (hplain : groupMessage? old.spec p c = none) :
    owns old.spec new p c = true := by
  rcases h.own_or_message hc with hown | ⟨group, hmessage, -⟩
  · exact hown
  · rw [hplain] at hmessage
    cases hmessage

theorem not_isStructural (h : Cleared old new p) {c : Change} (hc : c ∈ old.spec.changesTo new) :
    c.isStructural = false := by
  by_contra hstructural
  rw [Bool.not_eq_false] at hstructural
  rcases h.own_or_message hc with hown | ⟨group, hmessage, -⟩
  · rw [owns_of_isStructural hstructural] at hown
    cases hown
  · rw [groupMessage?_of_isStructural hstructural] at hmessage
    cases hmessage

theorem sameShape (h : Cleared old new p) : old.spec.SameShape new :=
  Spec.sameShape_of_changes fun _ hc => h.not_isStructural hc

/-- Votes of one edit are equal, slot and value. -/
theorem votes_eq (h : Cleared old new p) {v w : Slot × Vote} (hv : v ∈ votes old.spec new p)
    (hw : w ∈ votes old.spec new p) : v = w :=
  isSingleVote_iff.mp h.votes_single v hv w hw

end Cleared
end Guard
end Quorum
