import Quorum.Proofs.Rightful

/-!
# Voters gathering on one task

Voters with names and slots of their own can all cast their first vote on a task that asks for at
least as many approvals as there are voters (`Gathering`). What the task looks like after some of
them voted does not depend on their order (`Gathering.After`), and everybody else is still welcome
(`Gathering.After.proposes`).
-/
namespace Quorum

/-- The principal has a user entry, or belongs to a group that is listed. -/
def Spec.Lists (s : Spec) (p : Principal) : Prop :=
  ∃ a ∈ s.approvers, a.kind = .user ∧ a.name = p.username ∨
    a.kind = .group ∧ (p.claims a.name = true ∨ ∃ m ∈ a.members, m.name = p.username)

theorem Ballot.slot?_isSome_iff {b : Ballot} {s : Spec} :
    (b.slot? s).isSome = true ↔ s.Lists b.principal := by
  rw [slot?, Option.isSome_or, Bool.or_eq_true, List.find?_isSome, List.find?_isSome,
    ← exists_or, Spec.Lists]
  refine exists_congr fun a => ?_
  rw [← and_or_left, isUserEntry_iff, isOwnGroup_iff]

/-- Someone who casts one vote, and how often the vote may be retried. -/
structure Voter where
  ballot : Ballot
  retries : Nat

namespace Voter

abbrev name (v : Voter) : String := v.ballot.principal.username

abbrev vote (v : Voter) : Vote := v.ballot.vote

end Voter

/-- A task that nobody has voted on, and voters who are to vote on it at the same time.

The last two fields keep the two counters of a vote from standing still. The tries of a vote are
counted in 32 bits, so that with 2³² voters the last of them could be left without one however many
retries are asked for (`few`). A version that has reached the end of its 64 bits no longer rises, so
that two votes read from that version would both land and the second undo the first (`room`). -/
structure Gathering (t : Task) (voters : List Voter) : Prop where
  valid : t.spec.WellFormed
  pending : t.spec.AllPending
  status_open : t.status.state.isFinal = false
  unanswered : t.status.responses = []
  legible : t.Legible
  keyed : ∀ v ∈ voters, v.ballot.key = t.key
  distinct : (voters.map Voter.name).Nodup
  named : ∀ v ∈ voters, UserName v.name
  listed : ∀ v ∈ voters, t.spec.Lists v.ballot.principal
  decided : ∀ v ∈ voters, v.vote = .approve ∨ v.vote = .reject
  required : voters.length ≤ t.spec.required
  retries : ∀ v ∈ voters, voters.length ≤ v.retries + 1
  few : voters.length ≤ Bounds.nat32Max
  room : t.metadata.version + voters.length ≤ Bounds.nat64Max

namespace Gathering
variable {t u : Task} {voters : List Voter} {v w : Voter} {done : List Ballot}

/-- The task `u` that is `t` after the votes `done`. -/
structure After (t : Task) (voters : List Voter) (done : List Ballot) (u : Task) : Prop where
  kept : u =
    { t with spec := u.spec, metadata.version := t.metadata.version + done.length }
  once : done.Nodup
  cast : done ⊆ voters.map Voter.ballot
  valid : u.spec.WellFormed
  required_eq : u.spec.required = t.spec.required
  carried : u.spec.Carried
  slots : ∀ v ∈ voters, (v.ballot.slot? u.spec).isSome = true
  undecided : ∀ v ∈ voters, v.ballot ∉ done → u.spec.UndecidedBy v.ballot.principal
  votes : ∀ b ∈ done, b.slotVote? u.spec = some b.vote
  approved_iff : ∀ name, u.spec.ApprovedBy name ↔
    ∃ b ∈ done, b.vote = .approve ∧ name = b.principal.username
  rejected_iff : u.spec.HoldsReject ↔ ∃ b ∈ done, b.vote = .reject

theorem isDecided (h : Gathering t voters) (hv : v ∈ voters) :
    v.ballot.vote.isDecided = true := by
  rcases h.decided v hv with hvote | hvote <;> rw [show v.ballot.vote = _ from hvote] <;> rfl

theorem name_ne (h : Gathering t voters) (hv : v ∈ voters) (hw : w ∈ voters)
    (hne : v.ballot ≠ w.ballot) : v.name ≠ w.name := fun hname =>
  hne (congrArg Voter.ballot (List.inj_on_of_nodup_map h.distinct hv hw hname))

theorem voters_nodup (h : Gathering t voters) : voters.Nodup := List.Nodup.of_map _ h.distinct

theorem ballots_nodup (h : Gathering t voters) : (voters.map Voter.ballot).Nodup := by
  refine List.Nodup.of_map (fun b : Ballot => b.principal.username) ?_
  rw [List.map_map]
  exact h.distinct

/-- Nobody approves or rejects what is all pending. -/
theorem after_nil (h : Gathering t voters) : After t voters [] t where
  kept := rfl
  once := .nil
  cast := List.nil_subset _
  valid := h.valid
  required_eq := rfl
  carried := h.pending.carried
  slots v hv := Ballot.slot?_isSome_iff.mpr (h.listed v hv)
  undecided v _ _ := h.pending.undecidedBy _
  votes b hb := by cases hb
  approved_iff name := by
    simp only [List.not_mem_nil, false_and, exists_false, iff_false]
    rintro ⟨a, ha, ⟨-, -, hvote⟩ | ⟨-, hm⟩⟩
    · cases (h.pending.approvers_pending a ha).symm.trans hvote
    · cases h.pending.members_pending a ha _ hm
  rejected_iff := by
    simp only [List.not_mem_nil, false_and, exists_false, iff_false]
    rintro ⟨a, ha, hvote | ⟨m, hm, hvote⟩⟩
    · cases (h.pending.approvers_pending a ha).symm.trans hvote
    · cases (h.pending.members_pending a ha m hm).symm.trans hvote

namespace After

theorem version_eq (a : After t voters done u) :
    u.metadata.version = t.metadata.version + done.length := by
  rw [a.kept]

theorem key_eq (a : After t voters done u) : u.key = t.key := by
  rw [a.kept]
  rfl

theorem status_eq (a : After t voters done u) : u.status = t.status := by
  rw [a.kept]

theorem length_le (a : After t voters done u) : done.length ≤ voters.length := by
  have hlength := (List.subperm_of_subset a.once a.cast).length_le
  rwa [List.length_map] at hlength

theorem length_lt (a : After t voters done u) (hv : v ∈ voters) (hnot : v.ballot ∉ done) :
    done.length < voters.length := by
  have hcast : v.ballot :: done ⊆ voters.map Voter.ballot :=
    List.cons_subset.mpr ⟨List.mem_map_of_mem hv, a.cast⟩
  have hlength := (List.subperm_of_subset (List.nodup_cons.mpr ⟨hnot, a.once⟩) hcast).length_le
  rwa [List.length_map] at hlength

theorem length_eq (h : Gathering t voters) (a : After t voters done u)
    (hall : ∀ v ∈ voters, v.ballot ∈ done) : done.length = voters.length := by
  have hsubset : voters.map Voter.ballot ⊆ done := by
    intro b hb
    obtain ⟨v, hv, rfl⟩ := List.mem_map.mp hb
    exact hall v hv
  have hlength := (List.subperm_of_subset h.ballots_nodup hsubset).length_le
  rw [List.length_map] at hlength
  exact Nat.le_antisymm (a.length_le) hlength

/-- Those who have voted are fewer than are required, as long as somebody has not. -/
theorem tally_open (h : Gathering t voters) (a : After t voters done u)
    (hlength : done.length < voters.length) :
    u.spec.tally.meets u.spec.required = false := by
  rw [← Bool.not_eq_true, Spec.meets_iff]
  rintro ⟨-, names, hnodup, hrequired, happroved⟩
  have hsubset : names ⊆ done.map fun b => b.principal.username := by
    intro name hname
    obtain ⟨b, hb, -, rfl⟩ := (a.approved_iff name).mp (happroved name hname)
    exact List.mem_map_of_mem hb
  have hnames := (List.subperm_of_subset hnodup hsubset).length_le
  rw [List.length_map] at hnames
  have := h.required
  rw [a.required_eq] at hrequired
  omega

theorem marks (h : Gathering t voters) (a : After t voters done u) (hv : v ∈ voters)
    (hnot : v.ballot ∉ done) : ∃ o, v.ballot.Marks u.spec o := by
  obtain ⟨o, ho⟩ := Option.isSome_iff_exists.mp (a.slots v hv)
  exact ⟨o, a.valid, ho, a.undecided v hv hnot, h.isDecided hv⟩

theorem legible (h : Gathering t voters) (a : After t voters done u) : u.Legible := by
  have hversion : u.metadata.version ≤ Bounds.nat64Max := by
    have := a.length_le
    have := h.room
    rw [a.version_eq]
    omega
  refine ⟨hversion, ?_, a.required_eq ▸ h.legible.required, a.valid.legible,
    a.status_eq ▸ h.legible.status⟩
  rw [a.kept]
  exact h.legible.created

/-- Whoever has not voted yet can: the edit exists, is admitted, and is the one that the vote asks
for. -/
theorem proposes (h : Gathering t voters) (a : After t voters done u) (hv : v ∈ voters)
    (hnot : v.ballot ∉ done) : ∃ proposed, v.ballot.Proposes u proposed := by
  obtain ⟨o, hmarks⟩ := a.marks h hv hnot
  have hrecorded : Guard.recorded u v.ballot.principal = [] := by
    rw [Guard.recorded, Guard.recordedInSpec_eq_nil_iff.mpr hmarks.undecided, a.status_eq,
      Guard.recordedInStatus, h.unanswered]
    rfl
  exact ⟨_, Ballot.proposes_of_undecided hmarks (a.status_eq ▸ h.status_open)
    (a.tally_open h (a.length_lt hv hnot)) hrecorded (h.named v hv) (a.legible h)⟩

theorem spec_eq_of_proposes (a : After t voters done u) {b : Ballot} {o : Approver}
    (hslot : b.slot? u.spec = some o) {proposed : Task} (hproposes : b.Proposes u proposed) :
    proposed.spec = b.markAt u.spec o := by
  have hedit := hproposes.edit
  rw [Ballot.edit?_eq a.valid.approvers_distinct, hslot, Option.map_some] at hedit
  exact (Option.some.inj hedit).symm

/-- One more vote. -/
theorem vote (h : Gathering t voters) (a : After t voters done u) (hv : v ∈ voters)
    (hnot : v.ballot ∉ done) {proposed : Task} (hproposes : v.ballot.Proposes u proposed) :
    After t voters (v.ballot :: done) (Store.edited u proposed) := by
  obtain ⟨o, hmarks⟩ := a.marks h hv hnot
  have hspec : (Store.edited u proposed).spec = v.ballot.markAt u.spec o := by
    change proposed.spec = _
    exact a.spec_eq_of_proposes hmarks.slot hproposes
  have hversion : Store.nextVersion u.metadata.version =
      t.metadata.version + (done.length + 1) := by
    have := a.length_lt hv hnot
    have := h.room
    rw [a.version_eq, Store.nextVersion]
    omega
  have hother (w : Voter) (hw : w ∈ voters) (hne : w.ballot ≠ v.ballot) :
      w.ballot.principal.username ≠ v.ballot.principal.username := h.name_ne hw hv hne
  refine
    { kept := ?kept
      once := List.nodup_cons.mpr ⟨hnot, a.once⟩
      cast := List.cons_subset.mpr ⟨List.mem_map_of_mem hv, a.cast⟩
      valid := ?valid
      required_eq := hspec ▸ a.required_eq
      carried := hspec ▸ Ballot.carried_markAt a.valid hmarks.slot a.carried
      slots := ?slots
      undecided := ?undecided
      votes := ?votes
      approved_iff := ?approved_iff
      rejected_iff := ?rejected_iff }
  case kept =>
    rw [Store.edited, hproposes.kept, hversion, a.kept]
    rfl
  case valid =>
    rw [hspec]
    exact Ballot.wellFormed_markAt a.valid hmarks.slot (h.named v hv)
      (Vote.isKnown_of_isDecided hmarks.decided)
  case slots =>
    intro w hw
    rw [hspec]
    by_cases hsame : w.ballot = v.ballot
    · have hvote := Ballot.slotVote?_markAt a.valid hmarks.slot
      rw [hsame, Option.isSome_iff_exists]
      obtain ⟨n, hn, -⟩ := Option.bind_eq_some_iff.mp hvote
      exact ⟨n, hn⟩
    · rw [Ballot.slot?_isSome_markAt a.valid hmarks.slot (hother w hw hsame)]
      exact a.slots w hw
  case undecided =>
    intro w hw hnotin
    obtain ⟨hne, hold⟩ := not_or.mp fun h => hnotin (List.mem_cons.mpr h)
    rw [hspec]
    exact Ballot.undecidedBy_markAt a.valid hmarks.slot (hother w hw hne) (a.undecided w hw hold)
  case votes =>
    intro b hb
    rw [hspec]
    rcases List.mem_cons.mp hb with rfl | hb
    · exact Ballot.slotVote?_markAt a.valid hmarks.slot
    · obtain ⟨w, hw, rfl⟩ := List.mem_map.mp (a.cast hb)
      have hne : w.ballot ≠ v.ballot := fun heq => hnot (heq ▸ hb)
      rw [Ballot.slotVote?_markAt_of_ne a.valid hmarks.slot (hother w hw hne)]
      exact a.votes _ hb
  case approved_iff =>
    intro name
    rw [hspec, Ballot.approvedBy_markAt a.valid hmarks.slot hmarks.undecided, a.approved_iff name]
    simp only [List.mem_cons, or_and_right, exists_or, exists_eq_left]
    exact or_comm
  case rejected_iff =>
    rw [hspec, Ballot.holdsReject_markAt a.valid hmarks.slot hmarks.undecided a.carried,
      a.rejected_iff]
    simp only [List.mem_cons, or_and_right, exists_or, exists_eq_left]
    exact or_comm

end After

/-- Who approves, and whether anyone rejects, counted from the voters alone. -/
def tally (voters : List Voter) : Tally where
  approving := .ofList ((voters.filter (·.vote = .approve)).map Voter.name)
  rejected := voters.any (·.vote = .reject)

/-- Once everybody has voted, the tally is that of the votes they set out to cast, in whatever order
these landed. -/
theorem After.tally_eq (a : After t voters done u) (hall : ∀ v ∈ voters, v.ballot ∈ done) :
    u.spec.tally = tally voters := by
  have hdone (b : Ballot) : b ∈ done ↔ ∃ v ∈ voters, v.ballot = b := by
    constructor
    · intro hb
      exact List.mem_map.mp (a.cast hb)
    · intro h
      obtain ⟨v, hv, rfl⟩ := h
      exact hall v hv
  have happroving : u.spec.tally.approving = (tally voters).approving := by
    refine NameSet.ext_mem fun name => ?_
    rw [Spec.mem_approving_iff, a.approved_iff, tally, NameSet.mem_ofList, List.mem_map]
    constructor
    · intro h
      obtain ⟨b, hb, hvote, rfl⟩ := h
      obtain ⟨v, hv, rfl⟩ := (hdone b).mp hb
      exact ⟨v, List.mem_filter.mpr ⟨hv, by simpa using hvote⟩, rfl⟩
    · intro h
      obtain ⟨v, hv, rfl⟩ := h
      obtain ⟨hv, hvote⟩ := List.mem_filter.mp hv
      exact ⟨v.ballot, (hdone _).mpr ⟨v, hv, rfl⟩, by simpa using hvote, rfl⟩
  have hrejected : u.spec.tally.rejected = (tally voters).rejected := by
    have hmembers : u.spec.MembersInGroups := fun a' ha =>
      (a.valid.approvers_wellFormed a' ha).group_of_members
    rw [Bool.eq_iff_iff, Spec.rejected_iff hmembers, a.rejected_iff, tally, List.any_eq_true]
    constructor
    · intro h
      obtain ⟨b, hb, hvote⟩ := h
      obtain ⟨v, hv, rfl⟩ := (hdone b).mp hb
      exact ⟨v, hv, by simpa using hvote⟩
    · intro h
      obtain ⟨v, hv, hvote⟩ := h
      exact ⟨v.ballot, (hdone _).mpr ⟨v, hv, rfl⟩, by simpa using hvote⟩
  exact Tally.ext happroving hrejected

end Gathering
end Quorum
