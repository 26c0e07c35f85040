import Mathlib.Data.List.Dedup
import Quorum.Proofs.Reordering
import Quorum.Proofs.Validity

/-!
# A status explains itself

A status that is counted from valid votes lists a response for each approver who decided and for no
other, in the order of their keys (`Spec.responses_match`, `Spec.responses_sorted`). Votes are
counted and responses are made apart from each other, but what a response says is enough to count
its approver by (`Response.Reports.mem_approvingNames_iff`). So how many approve, and the state, can
be read off the responses (`Spec.aggregate_explains_itself`).
-/
namespace Quorum

namespace Response

def key (r : Response) : Approver.Key := ⟨r.kind, r.name⟩

/-- The response of `a`, with a record for each of the members who decided. -/
structure Reports (r : Response) (a : Approver) : Prop where
  key_eq : r.key = a.key
  message_eq : r.message = a.message
  response_eq : r.response = .rejected ∧ a.HoldsReject ∨ r.response = .approved ∧ ¬ a.HoldsReject
  members_sorted : r.members.Pairwise fun m n => m.name < n.name
  mem_members_iff : ∀ m : MemberResponse, m ∈ r.members ↔
    ∃ n ∈ a.members, m.name = n.name ∧ n.vote.outcome? = some m.response ∧ m.message = a.message

/-- Whom a response shows in favour: a user who approved, or the members of a group who did. -/
def approvingNames (r : Response) : List String :=
  match r.kind with
  | .user => if r.response = .approved then [r.name] else []
  | .group => (r.members.filter (·.response = .approved)).map (·.name)
  | .other _ => []

end Response

namespace Approver
variable {a : Approver} {name : String}

theorem hasDecision_of_holdsReject (h : a.HoldsReject) : a.hasDecision = true := by
  rw [hasDecision, Bool.or_eq_true, List.any_eq_true]
  rcases h with hvote | ⟨m, hm, hvote⟩
  · exact .inl (by rw [hvote]; rfl)
  · exact .inr ⟨m, hm, by rw [hvote]; rfl⟩

theorem hasDecision_of_approvedBy (h : a.ApprovedBy name) : a.hasDecision = true := by
  rw [hasDecision, Bool.or_eq_true, List.any_eq_true]
  rcases h with ⟨-, -, hvote⟩ | ⟨-, hm⟩
  · exact .inl (by rw [hvote]; rfl)
  · exact .inr ⟨_, hm, rfl⟩

theorem decidedMembers_sorted (hdistinct : (a.members.map (·.name)).Nodup) :
    a.decidedMembers.Pairwise fun m n => m.name < n.name := by
  have hnames : (a.members.filterMap a.record?).Pairwise fun m n => m.name ≠ n.name := by
    rw [List.pairwise_filterMap]
    refine (List.pairwise_map.mp hdistinct).imp fun hne r hr q hq hname => hne ?_
    rw [← (record?_eq_some_iff.mp hr).1, ← (record?_eq_some_iff.mp hq).1, hname]
  refine (pairwise_mergeSort_and (compareOn (·.name)) (fun _ _ => Ne.symm) hnames).imp
    fun {m n} h => ?_
  obtain ⟨hle, hne⟩ := h
  rcases Ordering.isLE_iff_eq_lt_or_eq_eq.mp hle with hlt | heq
  · exact compareOfLessAndEq_eq_lt.mp hlt
  · exact absurd (Std.compare_eq_iff_eq.mp heq) hne

theorem exists_rejected_iff : (∃ r ∈ a.decidedMembers, r.response = .rejected) ↔
    ∃ m ∈ a.members, m.vote = .reject := by
  simp only [mem_decidedMembers_iff, record?_eq_some_iff]
  constructor
  · intro h
    obtain ⟨r, ⟨m, hm, -, hvote, -⟩, hresponse⟩ := h
    exact ⟨m, hm, Vote.eq_of_outcome? hvote (hresponse ▸ rfl)⟩
  · intro h
    obtain ⟨m, hm, hvote⟩ := h
    exact ⟨⟨m.name, .rejected, a.message⟩, ⟨m, hm, rfl, hvote ▸ rfl, rfl⟩, rfl⟩

theorem toResponse_response : a.toResponse.response = .rejected ∧ a.HoldsReject ∨
    a.toResponse.response = .approved ∧ ¬ a.HoldsReject := by
  rw [HoldsReject, ← exists_rejected_iff]
  by_cases h : a.vote = .reject ∨ ∃ r ∈ a.decidedMembers, r.response = .rejected
  · exact .inl ⟨by simpa [toResponse, ← or_iff_not_imp_left] using h, h⟩
  · exact .inr ⟨by simpa [toResponse] using h, h⟩

theorem reports_toResponse (hdistinct : (a.members.map (·.name)).Nodup) :
    a.toResponse.Reports a where
  key_eq := rfl
  message_eq := rfl
  response_eq := toResponse_response
  members_sorted := decidedMembers_sorted hdistinct
  mem_members_iff m := by
    refine mem_decidedMembers_iff.trans (exists_congr fun n => and_congr_right fun _ => ?_)
    exact record?_eq_some_iff

end Approver

namespace Response.Reports
variable {r : Response} {a : Approver} {name : String}

theorem rejected_iff (h : r.Reports a) : r.response = .rejected ↔ a.HoldsReject := by
  rcases h.response_eq with ⟨hresponse, hholds⟩ | ⟨hresponse, hholds⟩
  · simp [hresponse, hholds]
  · simp [hresponse, hholds]

theorem approved_iff (h : r.Reports a) (hdecided : a.hasDecision = true) (hnil : a.members = []) :
    r.response = .approved ↔ a.vote = .approve := by
  have hholds : a.HoldsReject ↔ a.vote = .reject := by simp [Approver.HoldsReject, hnil]
  have hvote : a.vote.isDecided = true := by simpa [Approver.hasDecision, hnil] using hdecided
  rcases h.response_eq with ⟨hresponse, hreject⟩ | ⟨hresponse, hreject⟩
  · rw [hholds] at hreject
    simp [hresponse, hreject]
  · rw [hholds] at hreject
    cases ha : a.vote <;> simp_all [Vote.isDecided]

theorem member_approved_iff (h : r.Reports a) :
    (∃ m ∈ r.members, m.response = .approved ∧ m.name = name) ↔ ⟨name, .approve⟩ ∈ a.members := by
  simp only [h.mem_members_iff]
  constructor
  · intro h
    obtain ⟨m, ⟨⟨n, v⟩, hn, hname, hvote, -⟩, hresponse, rfl⟩ := h
    obtain rfl : v = .approve := Vote.eq_of_outcome? hvote (hresponse ▸ rfl)
    exact hname ▸ hn
  · intro h
    exact ⟨⟨name, .approved, a.message⟩, ⟨_, h, rfl, rfl, rfl⟩, rfl, rfl⟩

/-- What a response says is enough to count its approver by. -/
theorem mem_approvingNames_iff (h : r.Reports a) (hdecided : a.hasDecision = true)
    (hmembers : a.members ≠ [] → a.kind = .group) :
    name ∈ r.approvingNames ↔ a.ApprovedBy name := by
  have hkind : r.kind = a.kind := congrArg Approver.Key.kind h.key_eq
  have hname : r.name = a.name := congrArg Approver.Key.name h.key_eq
  rw [Response.approvingNames, Approver.ApprovedBy, hkind, hname]
  cases ha : a.kind with
  | user =>
    have hnil : a.members = [] := by
      by_contra hne
      rw [hmembers hne] at ha
      cases ha
    simp [h.approved_iff hdecided hnil, and_comm, eq_comm]
  | group => simpa [and_assoc] using h.member_approved_iff
  | other text => simp

end Response.Reports

namespace Status

/-- Whom a status shows in favour. -/
def approvingNames (s : Status) : List String := s.responses.flatMap Response.approvingNames

/-- The state that the rest of a status speaks for. -/
def stateShown (s : Status) : Outcome :=
  if ∃ r ∈ s.responses, r.response = .rejected then .rejected
  else if 0 < s.required ∧ s.required ≤ s.received then .approved
  else .pending

/-- The status shows the votes of `spec`, each once and in order, and follows from what it shows. -/
structure Explains (s : Status) (spec : Spec) : Prop where
  responses_match : MatchedBy Response.Reports s.responses (spec.approvers.filter (·.hasDecision))
  responses_sorted : s.responses.Pairwise fun q r => q.key.compare r.key = .lt
  approvers_sorted : s.approvers.Pairwise (· < ·)
  mem_approvers_iff : ∀ name, name ∈ s.approvers ↔ ∃ a ∈ spec.approvers, a.name = name
  required_eq : s.required = spec.required
  received_eq : s.received = s.approvingNames.dedup.length
  state_eq : s.state = s.stateShown

end Status

namespace Spec
variable {s : Spec}

theorem responses_match (h : s.WellFormed) :
    MatchedBy Response.Reports s.responses (s.approvers.filter (·.hasDecision)) := by
  have hmade : MatchedBy Response.Reports
      ((s.approvers.filter (·.hasDecision)).map Approver.toResponse)
      (s.approvers.filter (·.hasDecision)) := by
    refine ⟨_, .refl _, List.forall₂_map_left_iff.mpr (List.forall₂_same.mpr fun a ha => ?_)⟩
    exact Approver.reports_toResponse (h.members_distinct (List.mem_of_mem_filter ha))
  exact hmade.perm responses_perm (.refl _)

theorem responses_sorted (h : (s.approvers.map Approver.key).Nodup) :
    s.responses.Pairwise fun q r => q.key.compare r.key = .lt := by
  have hkeys : ((s.approvers.filter (·.hasDecision)).map Approver.toResponse).Pairwise
      fun q r => q.key ≠ r.key :=
    List.pairwise_map.mpr ((List.pairwise_map.mp h).filter _)
  refine (pairwise_mergeSort_and Response.compare (fun _ _ => Ne.symm) hkeys).imp
    fun {q r} hqr => ?_
  obtain ⟨hle, hne⟩ := hqr
  have hthen : q.compare r = (q.key.compare r.key).then (compare q.message r.message) := rfl
  -- No two keys tie, so messages are never compared.
  cases hkey : q.key.compare r.key with
  | lt => rfl
  | eq => exact absurd (Approver.Key.eq_of_compare hkey) hne
  | gt =>
    rw [hthen, hkey] at hle
    cases hle

/-- What holds of none but approvers who decided can be read off the responses. -/
theorem exists_response_iff (h : s.WellFormed) {P : Response → Prop} {Q : Approver → Prop}
    (hdecided : ∀ a, Q a → a.hasDecision = true)
    (hPQ : ∀ r, ∀ a ∈ s.approvers, a.hasDecision = true → r.Reports a → (P r ↔ Q a)) :
    (∃ r ∈ s.responses, P r) ↔ ∃ a ∈ s.approvers, Q a := by
  have hresponses : (∃ r ∈ s.responses, P r) ↔ ∃ a ∈ s.approvers.filter (·.hasDecision), Q a := by
    refine MatchedBy.exists_iff (responses_match h) fun r _ a ha hra => ?_
    obtain ⟨ha, hadecided⟩ := List.mem_filter.mp ha
    exact hPQ r a ha hadecided hra
  refine hresponses.trans (exists_congr fun a => ?_)
  rw [List.mem_filter, and_assoc]
  exact and_congr_right fun _ => and_iff_right_of_imp (hdecided a)

theorem mem_approvingNames_iff (h : s.WellFormed) {start : Option Instant} {name : String} :
    name ∈ (s.freshStatus start).approvingNames ↔ s.ApprovedBy name := by
  rw [Status.approvingNames, List.mem_flatMap]
  exact exists_response_iff h (fun _ => Approver.hasDecision_of_approvedBy)
    fun r a ha hdecided hra =>
      hra.mem_approvingNames_iff hdecided (h.membersInGroups a ha)

theorem received_eq (h : s.WellFormed) (start : Option Instant) :
    s.tally.received = (s.freshStatus start).approvingNames.dedup.length := by
  have hperm : s.tally.approving.names.Perm (s.freshStatus start).approvingNames.dedup := by
    refine (List.perm_ext_iff_of_nodup (NameSet.nodup _) (List.nodup_dedup _)).mpr fun name => ?_
    rw [List.mem_dedup, mem_approvingNames_iff h]
    exact mem_approving_iff
  exact congrArg Nat.cast hperm.length_eq

theorem stateShown_eq (h : s.WellFormed) (start : Option Instant) :
    (s.freshStatus start).stateShown = s.tally.state s.required := by
  have hrejected : (∃ r ∈ s.responses, r.response = .rejected) ↔ s.tally.rejected = true :=
    (exists_response_iff h (fun _ => Approver.hasDecision_of_holdsReject)
      fun _ _ _ _ hra => hra.rejected_iff).trans (rejected_iff h.membersInGroups).symm
  simp only [Status.stateShown, freshStatus, hrejected, Tally.state, Tally.meets, Bool.and_eq_true,
    decide_eq_true_eq]

/-- A status that is counted from valid votes shows them, and follows from what it shows. -/
theorem aggregate_explains_itself (s : Spec) (previous : Option Status)
    (hvalid : s.validate = .ok ()) (hopen : ∀ p ∈ previous, p.state.isFinal = false) :
    (s.aggregate previous).Explains s := by
  have h : s.WellFormed := validate_eq_ok_iff.mp hvalid
  rw [aggregate_of_open hopen]
  exact {
    responses_match := responses_match h
    responses_sorted := responses_sorted h.approvers_distinct
    approvers_sorted := s.approverNames.sorted
    mem_approvers_iff := fun name => by
      rw [← List.mem_map]
      exact NameSet.mem_ofList
    required_eq := rfl
    received_eq := received_eq h _
    state_eq := (stateShown_eq h _).symm }

/-- Somebody approves as a user and as a member, a member rejects, and a group has no members. -/
def mixedGate : Spec where
  approvers := [
    { name := "staff", kind := .group, vote := .approve },
    { name := "ops", kind := .group, vote := .approve, message := some "",
      members := [⟨"cid", .pending⟩, ⟨"bob", .reject⟩, ⟨"ann", .approve⟩] },
    { name := "dan" },
    { name := "ann", vote := .approve, message := some "fine" }]
  required := 2

theorem aggregate_mixedGate_explains_itself :
    (mixedGate.aggregate (some (.initial mixedGate))).Explains mixedGate ∧
      (mixedGate.aggregate (some (.initial mixedGate))).received = 1 ∧
      (mixedGate.aggregate (some (.initial mixedGate))).state = .rejected := by
  refine ⟨aggregate_explains_itself mixedGate _ ?_ ?_, by decide, by decide⟩
  · exact validate_eq_ok_iff.mpr (problems_eq_nil_iff.mp (by decide))
  · intro p hp
    obtain rfl := Option.mem_some_iff.mp hp
    rfl

end Spec
end Quorum
