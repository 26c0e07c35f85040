import Mathlib.Data.Multiset.Basic
import Quorum.Proofs.Reordering
import Quorum.Proofs.Validity

/-!
# Where order shows

Responses are listed by kind, name and message, and their members by name; what ties keeps the order
of the votes. So the order of approvers and members shows in a status if and only if two responses
that differ tie, and never in a tally (`Spec.order_shows_in_ties_alone`).
-/
namespace Quorum

/-- If no order of the members shows, those who decided and share a name decided alike. -/
theorem Approver.vote_eq_of_toResponse {a : Approver} {m n : Member} (hm : m ∈ a.members)
    (hn : n ∈ a.members) (hmdecided : m.vote.isDecided = true)
    (hndecided : n.vote.isDecided = true) (hname : m.name = n.name)
    (h : ∀ ms ns, a.members.Perm ms → a.members.Perm ns →
      (a.withMembers ms).toResponse = (a.withMembers ns).toResponse) : m.vote = n.vote := by
  by_contra hvote
  have hne : m ≠ n := fun heq => hvote (congrArg Member.vote heq)
  obtain ⟨rest, hmfirst, hnfirst⟩ := exists_perm_cons_cons hm hn hne
  obtain ⟨o, ho⟩ := Vote.exists_outcome? hmdecided
  obtain ⟨u, hu⟩ := Vote.exists_outcome? hndecided
  have hmrecord : a.record? m = some ⟨m.name, o, a.message⟩ :=
    record?_eq_some_iff.mpr ⟨rfl, ho, rfl⟩
  have hnrecord : a.record? n = some ⟨n.name, u, a.message⟩ :=
    record?_eq_some_iff.mpr ⟨rfl, hu, rfl⟩
  have hsorted : ((m :: n :: rest).filterMap a.record?).mergeSort
        (fun r q => (compareOn MemberResponse.name r q).isLE) =
      ((n :: m :: rest).filterMap a.record?).mergeSort
        fun r q => (compareOn MemberResponse.name r q).isLE :=
    congrArg Response.members (h _ _ hmfirst hnfirst)
  simp only [List.filterMap_cons, hmrecord, hnrecord] at hsorted
  have htie : compareOn MemberResponse.name ⟨m.name, o, a.message⟩ ⟨n.name, u, a.message⟩ = .eq :=
    Std.compare_eq_iff_eq.mpr hname
  have hsame := eq_of_mergeSort_eq (compareOn MemberResponse.name) htie hsorted
  obtain rfl : o = u := congrArg MemberResponse.response hsame
  exact hvote (Vote.eq_of_outcome? ho hu)

namespace Spec
variable {s : Spec} {a b : Approver}

/-- The order of the members of an approver who decided shows in nothing but their own response. -/
theorem toResponse_eq_of_responses
    (h : ∀ as, Approver.Reordering s.approvers as → (s.withApprovers as).responses = s.responses)
    (ha : a ∈ s.approvers) (hdecided : a.hasDecision = true) {ms ns : List Member}
    (hms : a.members.Perm ms) (hns : a.members.Perm ns) :
    (a.withMembers ms).toResponse = (a.withMembers ns).toResponse := by
  let rest := s.approvers.erase a
  let others := (rest.filter Approver.hasDecision).map Approver.toResponse
  have hperm (ms : List Member) (hms : a.members.Perm ms) :
      s.responses.Perm ((a.withMembers ms).toResponse :: others) := by
    have hmoved : Approver.Reordering s.approvers (a.withMembers ms :: rest) :=
      ⟨a :: rest, List.perm_cons_erase ha,
        .cons (.intro hms) (List.forall₂_same.mpr fun b _ => .refl b)⟩
    have hdecided : (a.withMembers ms).hasDecision = true := by
      rw [Approver.hasDecision_withMembers hms, hdecided]
    rw [← h _ hmoved, ← List.map_cons, ← List.filter_cons_of_pos hdecided]
    exact responses_perm
  have hcons := Multiset.coe_eq_coe.mpr ((hperm ms hms).symm.trans (hperm ns hns))
  rw [← Multiset.cons_coe, ← Multiset.cons_coe] at hcons
  exact (Multiset.cons_inj_left _).mp hcons

/-- If no order shows in the responses, none of them tie. -/
theorem untied_of_responses
    (h : ∀ as, Approver.Reordering s.approvers as → (s.withApprovers as).responses = s.responses) :
    s.Untied where
  members a ha m hm n hn hmdecided hndecided hname := by
    have hdecided : a.hasDecision = true := by
      unfold Approver.hasDecision
      rw [List.any_eq_true.mpr ⟨m, hm, hmdecided⟩, Bool.or_true]
    exact Approver.vote_eq_of_toResponse hm hn hmdecided hndecided hname
      fun _ _ => toResponse_eq_of_responses h ha hdecided
  approvers a ha b hb hadecided hbdecided hkey hmessage := by
    by_contra hresponse
    have hne : a ≠ b := fun heq => hresponse (congrArg Approver.toResponse heq)
    obtain ⟨rest, hafirst, hbfirst⟩ := exists_perm_cons_cons ha hb hne
    have hmoved (as : List Approver) (has : s.approvers.Perm as) :
        (s.withApprovers as).responses = s.responses :=
      h as (.of_perm has .refl)
    have hsorted : (((a :: b :: rest).filter Approver.hasDecision).map
          Approver.toResponse).mergeSort (fun r q => (r.compare q).isLE) =
        (((b :: a :: rest).filter Approver.hasDecision).map
          Approver.toResponse).mergeSort fun r q => (r.compare q).isLE :=
      (hmoved _ hafirst).trans (hmoved _ hbfirst).symm
    simp only [List.filter_cons, hadecided, hbdecided, if_true, List.map_cons] at hsorted
    have htie : a.toResponse.compare b.toResponse = .eq :=
      Response.compare_eq_iff.mpr
        ⟨congrArg Approver.Key.kind hkey, congrArg Approver.Key.name hkey, hmessage⟩
    exact hresponse (eq_of_mergeSort_eq Response.compare htie hsorted)

theorem WellFormed.untied (h : s.WellFormed) : s.Untied :=
  untied_of_nodup h.approvers_distinct fun _ => h.members_distinct

/-- Everything but the responses is the same in any order. -/
theorem freshStatus_withApprovers {as : List Approver}
    (h : Approver.Reordering s.approvers as) (start : Option Instant) :
    (s.withApprovers as).freshStatus start =
      { s.freshStatus start with responses := (s.withApprovers as).responses } := by
  have htally : s.tally = (s.withApprovers as).tally := tally_congr h
  have hnames : s.approverNames = (s.withApprovers as).approverNames := approverNames_congr h
  unfold freshStatus
  rw [htally, hnames]
  rfl

/-- The tally of approvers is the same in any order. So is the status but for its responses, which
are the same in some order; and these too are the same in every order if a final status stands or
nothing ties, as nothing does in a valid specification, and only then. -/
theorem order_shows_in_ties_alone (s : Spec) (previous : Option Status) :
    (∀ as, Approver.Reordering s.approvers as →
      (s.withApprovers as).tally = s.tally ∧
      ∃ rs, Response.Reordering (s.aggregate previous).responses rs ∧
        (s.withApprovers as).aggregate previous =
          { s.aggregate previous with responses := rs }) ∧
    ((∀ as, Approver.Reordering s.approvers as →
        (s.withApprovers as).aggregate previous = s.aggregate previous) ↔
      (∃ p ∈ previous, p.state.isFinal = true) ∨ s.Untied) ∧
    (s.validate = .ok () → s.Untied) := by
  refine ⟨fun as has => ⟨(tally_congr has).symm, ?_⟩, ?_, fun hvalid =>
    (validate_eq_ok_iff.mp hvalid).untied⟩
  · by_cases hfinal : ∃ p ∈ previous, p.state.isFinal = true
    · obtain ⟨p, rfl, hfinal⟩ := hfinal
      rw [aggregate_of_final hfinal, aggregate_of_final hfinal]
      exact ⟨p.responses, .of_perm (.refl _) .refl, rfl⟩
    · have hopen : ∀ p ∈ previous, p.state.isFinal = false := by simpa using hfinal
      rw [aggregate_of_open hopen, aggregate_of_open hopen]
      exact ⟨_, responses_reordering has, freshStatus_withApprovers has _⟩
  · by_cases hfinal : ∃ p ∈ previous, p.state.isFinal = true
    · refine iff_of_true (fun as _ => ?_) (.inl hfinal)
      obtain ⟨p, rfl, hfinal⟩ := hfinal
      rw [aggregate_of_final hfinal, aggregate_of_final hfinal]
    · have hopen : ∀ p ∈ previous, p.state.isFinal = false := by simpa using hfinal
      simp only [aggregate_of_open hopen, hfinal, false_or]
      constructor
      · intro h
        exact untied_of_responses fun as has => congrArg Status.responses (h as has)
      · intro huntied as has
        have hresponses : s.responses = (s.withApprovers as).responses :=
          responses_congr has huntied
        rw [freshStatus_withApprovers has, ← hresponses]
        rfl

/-- A user's vote and a team's, in the order they are listed in or the other way round. -/
theorem turned_team_has_same_status :
    Approver.Reordering Approver.teamList Approver.turnedTeamList ∧
      (⟨Approver.turnedTeamList, 2, none⟩ : Spec).aggregate none =
        (⟨Approver.teamList, 2, none⟩ : Spec).aggregate none := by
  have hvalid : (⟨Approver.teamList, 2, none⟩ : Spec).validate = .ok () :=
    validate_eq_ok_iff.mpr (problems_eq_nil_iff.mp (by decide))
  obtain ⟨-, hshows, huntied⟩ := order_shows_in_ties_alone ⟨Approver.teamList, 2, none⟩ none
  exact ⟨Approver.teamList_reordering,
    hshows.mpr (.inr (huntied hvalid)) _ Approver.teamList_reordering⟩

/-- A team that is listed twice, approving as a whole and through a member. -/
def doubledTeam : Spec where
  approvers :=
    [{ name := "team", kind := .group, vote := .approve },
      { name := "team", kind := .group, members := [⟨"bob", .approve⟩] }]
  required := 2

/-- Two approvals of one team that differ in their members are reported in the order they come in,
with one and the same tally. -/
theorem doubled_team_shows_order :
    Approver.Reordering doubledTeam.approvers doubledTeam.approvers.reverse ∧
      (doubledTeam.withApprovers doubledTeam.approvers.reverse).tally = doubledTeam.tally ∧
      (doubledTeam.withApprovers doubledTeam.approvers.reverse).aggregate none ≠
        doubledTeam.aggregate none := by
  let whole : Response := { name := "team", kind := .group, response := .approved }
  let joint : Response := { whole with members := [{ name := "bob", response := .approved }] }
  have hlisted : doubledTeam.responses = [whole, joint] := by cbv
  have hturned : (doubledTeam.withApprovers doubledTeam.approvers.reverse).responses =
      [joint, whole] := by cbv
  refine ⟨.of_perm (List.reverse_perm _).symm .refl, by decide, fun h => ?_⟩
  have hsame : [joint, whole] = [whole, joint] :=
    hturned.symm.trans ((congrArg Status.responses h).trans hlisted)
  exact absurd hsame (by decide)

end Spec
end Quorum
