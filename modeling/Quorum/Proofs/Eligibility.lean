import Quorum.Proofs.Canonical
import Quorum.Proofs.Gathering

/-!
# Who has a slot

A vote looks for its slot in one way and the guard for the voter's approvers in another; in a valid
specification both find the same people (`Spec.WellFormed.eligible_iff`). So whoever the guard lets
in has a slot to vote in, and, unless something of theirs is on record already, the vote is admitted
and stored (`Ballot.rightful_vote_is_admitted`).
-/
namespace Quorum
open Guard

theorem Spec.WellFormed.eligible_iff {s : Spec} {p : Principal} (h : s.WellFormed) :
    eligible s p = true ↔ s.Lists p := by
  have hsome : s.approvers.isEmpty = false := by simpa using h.approvers_ne_nil
  rw [eligible, hsome, Bool.false_or, List.any_eq_true, Spec.Lists]
  refine exists_congr fun a => and_congr_right fun ha => ?_
  cases hkind : a.kind with
  | user => simp
  | group => simp [belongsTo_iff h.approvers_distinct ha hkind]
  | other text => simp

namespace Ballot
variable {b : Ballot} {s : Spec} {t : Task}

/-- A vote finds a slot if and only if the guard finds an approver. -/
theorem edit?_isSome_iff (h : s.WellFormed) :
    (b.edit? s).isSome = true ↔ eligible s b.principal = true := by
  rw [edit?_eq h.approvers_distinct, Option.isSome_map, slot?_isSome_iff, h.eligible_iff]

/-- On a task that was decoded and is valid, a principal's votes find a slot if and only if the
guard counts the principal among the approvers. If the task is open and no decision of the principal
is on record, the edit that their approval or rejection makes is admitted, whatever message comes
with it, and a vote that is alone with a store is recorded. -/
theorem rightful_vote_is_admitted {j : Json} (hdecodes : Task.decoder.ofJson j = .ok t)
    (hvalid : t.spec.validate = .ok ()) (p : Principal) :
    (∀ b : Ballot, b.principal = p →
      ((b.edit? t.spec).isSome = true ↔ eligible t.spec p = true)) ∧
    (t.status.state.isFinal = false → t.spec.tally.meets t.spec.required = false →
      recorded t p = [] → Text.blank p.username = false →
      ¬ Spec.groupMark.toList <+: p.username.toList →
      ∀ b : Ballot, b.principal = p → b.vote = .approve ∨ b.vote = .reject →
      ∀ spec, b.edit? t.spec = some spec →
        (Admission.respond (.update p { t with spec } t)).allowed = true ∧
        ∀ s retries, s.get? b.key = some t →
          ∃ stored, b.cast retries s = (.ok stored, s.put stored) ∧ stored.spec = spec) := by
  have hwell : t.spec.WellFormed := Spec.validate_eq_ok_iff.mp hvalid
  constructor
  · rintro b rfl
    exact edit?_isSome_iff hwell
  · rintro hstatus htally hrecorded hblank hmark b rfl hvote spec hedit
    have hdecided : b.vote.isDecided = true := by
      rcases hvote with hvote | hvote <;> rw [hvote] <;> rfl
    have hundecided : t.spec.UndecidedBy b.principal :=
      recordedInSpec_eq_nil_iff.mp (List.append_eq_nil_iff.mp hrecorded).1
    rw [edit?_eq hwell.approvers_distinct] at hedit
    obtain ⟨o, hslot, rfl⟩ := Option.map_eq_some_iff.mp hedit
    have hmarks : b.Marks t.spec o := ⟨hwell, hslot, hundecided, hdecided⟩
    have hproposes := proposes_of_undecided hmarks hstatus htally hrecorded ⟨hblank, hmark⟩
      (Task.decoder_yields j t hdecodes)
    exact ⟨hproposes.allowed, fun s retries hread =>
      ⟨_, cast_of_proposes retries hread hproposes, rfl⟩⟩

/-- A gate whose team has answered before: by a rejection of the group as a whole when it kept no
records yet, which a record that was added since has taken over. -/
def contestedGate : Task where
  metadata := { name := "gate", version := 3 }
  spec :=
    { approvers :=
        [{ name := "ann", vote := .approve },
          { name := "team", kind := .group, vote := .reject,
            members := [⟨"cid", .reject⟩, ⟨"bob", .pending⟩] }]
      required := 2 }
  status :=
    { responses :=
        [{ name := "ann", response := .approved },
          { name := "team", kind := .group, response := .rejected,
            members := [⟨"cid", .rejected, none⟩] }] }

/-- A member on the team's record who has not decided yet can still approve. -/
theorem listed_member_is_admitted :
    ∃ spec, (⟨"gate", ⟨"bob", []⟩, .approve, some "fine"⟩ : Ballot).edit? contestedGate.spec =
        some spec ∧
      (Admission.respond (.update ⟨"bob", []⟩ { contestedGate with spec } contestedGate)).allowed
        = true := by
  let b : Ballot := ⟨"gate", ⟨"bob", []⟩, .approve, some "fine"⟩
  have hvalid : contestedGate.spec.validate = .ok () :=
    Spec.validate_eq_ok_iff.mpr (Spec.problems_eq_nil_iff.mp (by decide))
  obtain ⟨hslot, hadmitted⟩ := rightful_vote_is_admitted (t := contestedGate)
    (j := contestedGate.toJson) (by decide) hvalid ⟨"bob", []⟩
  obtain ⟨spec, hedit⟩ := Option.isSome_iff_exists.mp ((hslot b rfl).mpr (by decide))
  exact ⟨spec, hedit, (hadmitted rfl (by decide) (by decide) (by decide)
    (by decide) b rfl (.inl rfl) spec hedit).1⟩

end Ballot
end Quorum
