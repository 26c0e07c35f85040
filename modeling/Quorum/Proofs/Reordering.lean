import Quorum.Aggregate
import Quorum.Proofs.RoundTrip
import Quorum.Proofs.Tally
import Quorum.Proofs.Unambiguous

/-!
# Counting does not see the order

Votes are counted into sets, so no order shows in a tally (`Spec.tally_congr`). Responses are
sorted, by keys that tell approvers apart and by names that tell members apart, unless two of them
tie (`Spec.Untied`). So specifications that are the same but for the order of approvers and members
have the same responses in some order (`Spec.responses_reordering`), in the same order if nothing
ties (`Spec.responses_congr`), and so have specifications whose approvers can be matched, each
reading the same (`Spec.freshStatus_congr`).
-/
namespace Quorum

instance : Ord Approver.Key := ⟨Approver.Key.compare⟩

instance : Std.TransOrd Approver.Key :=
  inferInstanceAs (Std.TransCmp (compareLex (compareOn fun k : Approver.Key => k.kind.rank.1)
    (compareLex (compareOn (·.kind.rank.2)) (compareOn (·.name)))))

theorem Approver.Key.eq_of_compare {k l : Key} (h : k.compare l = .eq) : k = l := by
  obtain ⟨kind, name⟩ := k
  obtain ⟨kind', name'⟩ := l
  simp only [compare, Ordering.then_eq_eq, Std.compare_eq_iff_eq] at h
  obtain ⟨hfirst, hsecond, rfl⟩ := h
  rw [Kind.rank_injective (Prod.ext hfirst hsecond)]

namespace Approver
variable {a b : Approver} {ms : List Member} {name : String}

def withMembers (a : Approver) (ms : List Member) : Approver := { a with members := ms }

/-- The same approver, its members in another order. -/
inductive SameButOrder (a : Approver) : Approver → Prop
  | intro {ms : List Member} (h : a.members.Perm ms) : a.SameButOrder (a.withMembers ms)

theorem SameButOrder.refl (a : Approver) : a.SameButOrder a := .intro (.refl _)

/-- The same approvers in another order, as the members of each may be. -/
def Reordering (as bs : List Approver) : Prop := MatchedBy SameButOrder as bs

/-- A team and a user who voted, and the two with the team's members the other way round. -/
def teamList : List Approver :=
  [{ name := "team", kind := .group, message := some "",
      members := [⟨"bob", .reject⟩, ⟨"cid", .pending⟩] },
    { name := "ann", vote := .approve, message := some "fine" }]

def turnedTeamList : List Approver :=
  [{ name := "ann", vote := .approve, message := some "fine" },
    { name := "team", kind := .group, message := some "",
      members := [⟨"cid", .pending⟩, ⟨"bob", .reject⟩] }]

theorem teamList_reordering : Reordering teamList turnedTeamList :=
  ⟨teamList.reverse, by decide, .cons (.intro (.refl _)) (.cons (.intro (by decide)) .nil)⟩

/-- Members who decided and share a name decided alike. -/
def Untied (a : Approver) : Prop :=
  ∀ m ∈ a.members, ∀ n ∈ a.members, m.vote.isDecided = true → n.vote.isDecided = true →
    m.name = n.name → m.vote = n.vote

theorem untied_of_nodup (hdistinct : (a.members.map (·.name)).Nodup) : a.Untied := by
  intro m hm n hn _ _ hname
  rw [List.inj_on_of_nodup_map hdistinct hm hn hname]

theorem approvedBy_withMembers (h : a.members.Perm ms) :
    (a.withMembers ms).ApprovedBy name ↔ a.ApprovedBy name := by
  unfold ApprovedBy withMembers
  rw [h.mem_iff]

theorem rejects_withMembers (h : a.members.Perm ms) : (a.withMembers ms).rejects = a.rejects := by
  unfold rejects withMembers
  rw [h.any_eq]

theorem hasDecision_withMembers (h : a.members.Perm ms) :
    (a.withMembers ms).hasDecision = a.hasDecision := by
  unfold hasDecision withMembers
  rw [h.any_eq]

/-- What is recorded of a member who decided. -/
def record? (a : Approver) (m : Member) : Option MemberResponse :=
  m.vote.outcome?.map fun o => { name := m.name, response := o, message := a.message }

theorem record?_eq_some_iff {m : Member} {r : MemberResponse} :
    a.record? m = some r ↔
      r.name = m.name ∧ m.vote.outcome? = some r.response ∧ r.message = a.message := by
  rw [record?, Option.map_eq_some_iff]
  constructor
  · intro h
    obtain ⟨o, ho, rfl⟩ := h
    exact ⟨rfl, ho, rfl⟩
  · intro h
    obtain ⟨name, response, message⟩ := r
    obtain ⟨rfl, ho, rfl⟩ := h
    exact ⟨_, ho, rfl⟩

theorem mem_decidedMembers_iff {r : MemberResponse} :
    r ∈ a.decidedMembers ↔ ∃ m ∈ a.members, a.record? m = some r := by
  rw [decidedMembers, List.mem_mergeSort, List.mem_filterMap]
  rfl

theorem decidedMembers_perm : a.decidedMembers.Perm (a.members.filterMap a.record?) :=
  List.mergeSort_perm ..

theorem decidedMembers_withMembers_perm (h : a.members.Perm ms) :
    a.decidedMembers.Perm (a.withMembers ms).decidedMembers :=
  (decidedMembers_perm.trans (h.filterMap _)).trans
    (decidedMembers_perm (a := a.withMembers ms)).symm

theorem decidedMembers_withMembers (h : a.members.Perm ms) (huntied : a.Untied) :
    (a.withMembers ms).decidedMembers = a.decidedMembers := by
  refine (mergeSort_eq_of_perm (compareOn (·.name)) (h.filterMap a.record?) ?_).symm
  intro r hr q hq heq
  obtain ⟨m, hm, hmr⟩ := List.mem_filterMap.mp hr
  obtain ⟨n, hn, hnq⟩ := List.mem_filterMap.mp hq
  obtain ⟨hrname, hro, -⟩ := record?_eq_some_iff.mp hmr
  obtain ⟨hqname, hqo, -⟩ := record?_eq_some_iff.mp hnq
  have hname : r.name = q.name := Std.LawfulEqOrd.eq_of_compare heq
  have hvote : m.vote = n.vote := by
    refine huntied m hm n hn ?_ ?_ (by rw [← hrname, ← hqname, hname])
    · rw [Vote.isDecided_iff_outcome?, hro, Option.isSome_some]
    · rw [Vote.isDecided_iff_outcome?, hqo, Option.isSome_some]
  have hrecord : a.record? m = a.record? n := by
    unfold record?
    rw [hvote, ← hrname, ← hqname, hname]
  exact Option.some.inj (hmr.symm.trans (hrecord.trans hnq))

theorem toResponse_withMembers (h : a.members.Perm ms) (huntied : a.Untied) :
    (a.withMembers ms).toResponse = a.toResponse := by
  unfold toResponse
  rw [decidedMembers_withMembers h huntied]
  rfl

theorem ReadsAs.sameButOrder (h : a.ReadsAs b) (ha : a.Legible) (hb : b.Legible) :
    a.SameButOrder b := by
  let read (p : String × String) : Member := ⟨p.1, .ofText p.2⟩
  have hread (a : Approver) (ha : a.Legible) :
      (a.members.map Member.texts).map read = a.members := by
    rw [List.map_map]
    refine (List.map_congr_left fun m hm => ?_).trans (List.map_id _)
    exact congrArg (Member.mk m.name) (ha.members m hm)
  have hkind : a.kind = b.kind := ha.kind.symm.trans ((congrArg Kind.ofText h.kind).trans hb.kind)
  have hvote : a.vote = b.vote := ha.vote.symm.trans ((congrArg Vote.ofText h.vote).trans hb.vote)
  have hmembers : a.members.Perm b.members := hread a ha ▸ hread b hb ▸ h.members.map read
  have heq : b = a.withMembers b.members := by
    rw [withMembers, hkind, hvote, h.name, h.message]
  exact heq ▸ .intro hmembers

/-- Approvers that read the same are the same if texts are read as what they are. -/
theorem Matching.reordering {as bs : List Approver} (h : Matching as bs)
    (has : ∀ a ∈ as, a.Legible) (hbs : ∀ b ∈ bs, b.Legible) : Reordering as bs :=
  MatchedBy.mono h fun a ha b hb hab => hab.sameButOrder (has a ha) (hbs b hb)

end Approver

namespace Response

def withMembers (r : Response) (ms : List MemberResponse) : Response := { r with members := ms }

/-- The same response, its members in another order. It is what a status may differ by when
approvers are rearranged. -/
inductive SameButOrder (r : Response) : Response → Prop
  | intro {ms : List MemberResponse} (h : r.members.Perm ms) : r.SameButOrder (r.withMembers ms)

theorem SameButOrder.refl (r : Response) : r.SameButOrder r := .intro (.refl _)

/-- The same responses in another order, as the members of each may be. -/
def Reordering (rs qs : List Response) : Prop := MatchedBy SameButOrder rs qs

/-- By kind, name and message, as the responses of a status are sorted. -/
def compare : Response → Response → Ordering :=
  compareLex
    (compareLex (compareOn (·.kind.rank.1))
      (compareLex (compareOn (·.kind.rank.2)) (compareOn (·.name))))
    (compareOn (·.message))

instance : Std.TransCmp Response.compare := by
  unfold Response.compare
  infer_instance

theorem compare_eq_iff {r s : Response} :
    r.compare s = .eq ↔ r.kind = s.kind ∧ r.name = s.name ∧ r.message = s.message := by
  simp only [compare, compareLex, compareOn, Ordering.then_eq_eq, Std.compare_eq_iff_eq, and_assoc]
  constructor
  · intro h
    obtain ⟨hfirst, hsecond, hname, hmessage⟩ := h
    exact ⟨Approver.Kind.rank_injective (Prod.ext hfirst hsecond), hname, hmessage⟩
  · intro h
    obtain ⟨hkind, hname, hmessage⟩ := h
    exact ⟨by rw [hkind], by rw [hkind], hname, hmessage⟩

end Response

theorem Approver.Reordering.decided {as bs : List Approver} (h : Reordering as bs) :
    Reordering (as.filter hasDecision) (bs.filter hasDecision) := by
  refine MatchedBy.filter h fun a b hab => ?_
  obtain ⟨hms⟩ := hab
  exact (hasDecision_withMembers hms).symm

theorem Approver.toResponse_sameButOrder {a b : Approver} (h : a.SameButOrder b) :
    a.toResponse.SameButOrder b.toResponse := by
  obtain @⟨ms, hms⟩ := h
  have hperm := decidedMembers_withMembers_perm hms
  have heq : (a.withMembers ms).toResponse =
      a.toResponse.withMembers (a.withMembers ms).decidedMembers := by
    simp only [toResponse, Response.withMembers, hperm.any_eq]
    rfl
  exact heq ▸ .intro hperm

/-- Approvers and members are told apart by their names, and read as what they are. -/
structure Spec.Orderly (s : Spec) : Prop where
  approvers_distinct : (s.approvers.map Approver.key).Nodup
  members_distinct : ∀ a ∈ s.approvers, (a.members.map (·.name)).Nodup
  legible : s.Legible

/-- No two approvers who decided share kind, name and message, and no two members of one who decided
share a name, unless they respond alike. -/
structure Spec.Untied (s : Spec) : Prop where
  members : ∀ a ∈ s.approvers, a.Untied
  approvers : ∀ a ∈ s.approvers, ∀ b ∈ s.approvers, a.hasDecision = true → b.hasDecision = true →
    a.key = b.key → a.message = b.message → a.toResponse = b.toResponse

namespace Spec
variable {s s' : Spec}

def withApprovers (s : Spec) (as : List Approver) : Spec := { s with approvers := as }

theorem untied_of_nodup (happrovers : (s.approvers.map Approver.key).Nodup)
    (hmembers : ∀ a ∈ s.approvers, (a.members.map (·.name)).Nodup) : s.Untied where
  members a ha := Approver.untied_of_nodup (hmembers a ha)
  approvers a ha b hb _ _ hkey _ := by
    rw [List.inj_on_of_nodup_map happrovers ha hb hkey]

theorem approverNames_congr (h : Approver.Reordering s.approvers s'.approvers) :
    s.approverNames = s'.approverNames := by
  refine NameSet.ext_mem fun name => ?_
  rw [approverNames, approverNames, NameSet.mem_ofList, NameSet.mem_ofList, List.mem_map,
    List.mem_map]
  refine MatchedBy.exists_iff h fun a _ b _ hab => ?_
  obtain ⟨-⟩ := hab
  rfl

theorem tally_congr (h : Approver.Reordering s.approvers s'.approvers) : s.tally = s'.tally := by
  have happroving : s.tally.approving = s'.tally.approving := by
    refine NameSet.ext_mem fun name => ?_
    rw [mem_approving_iff, mem_approving_iff]
    refine MatchedBy.exists_iff h fun a _ b _ hab => ?_
    obtain ⟨hms⟩ := hab
    exact (Approver.approvedBy_withMembers hms).symm
  have hrejected : s.tally.rejected = s'.tally.rejected := by
    rw [Bool.eq_iff_iff, tally, tally, List.any_eq_true, List.any_eq_true]
    refine MatchedBy.exists_iff h fun a _ b _ hab => ?_
    obtain ⟨hms⟩ := hab
    rw [Approver.rejects_withMembers hms]
  exact Tally.ext happroving hrejected

theorem responses_perm : s.responses.Perm
    ((s.approvers.filter Approver.hasDecision).map Approver.toResponse) :=
  List.mergeSort_perm ..

/-- Whatever the order of the approvers, they have the same responses in some order. -/
theorem responses_reordering (h : Approver.Reordering s.approvers s'.approvers) :
    Response.Reordering s.responses s'.responses := by
  exact (MatchedBy.map h.decided fun _ _ => Approver.toResponse_sameButOrder).perm responses_perm
    responses_perm.symm

theorem responses_congr (h : Approver.Reordering s.approvers s'.approvers) (hs : s.Untied) :
    s.responses = s'.responses := by
  refine mergeSort_eq_of_perm Response.compare (MatchedBy.map_perm h.decided ?_) ?_
  · rintro a ha b - hab
    obtain ⟨hms⟩ := hab
    exact (Approver.toResponse_withMembers hms (hs.members a (List.mem_of_mem_filter ha))).symm
  · intro r hr q hq heq
    obtain ⟨a, ha, rfl⟩ := List.mem_map.mp hr
    obtain ⟨b, hb, rfl⟩ := List.mem_map.mp hq
    obtain ⟨hkind, hname, hmessage⟩ := Response.compare_eq_iff.mp heq
    obtain ⟨ha, hadecided⟩ := List.mem_filter.mp ha
    obtain ⟨hb, hbdecided⟩ := List.mem_filter.mp hb
    have hkey : a.key = b.key := congrArg₂ Approver.Key.mk hkind hname
    exact hs.approvers a ha b hb hadecided hbdecided hkey hmessage

/-- The status that is counted is that of the approvers and not of their order. -/
theorem freshStatus_congr (h : Approver.Matching s.approvers s'.approvers)
    (hrequired : s.required = s'.required) (hs : s.Orderly) (hs' : s'.Orderly)
    (start : Option Instant) : s.freshStatus start = s'.freshStatus start := by
  have hreordering := h.reordering hs.legible hs'.legible
  have huntied : s.Untied := untied_of_nodup hs.approvers_distinct hs.members_distinct
  unfold freshStatus
  rw [tally_congr hreordering, responses_congr hreordering huntied,
    approverNames_congr hreordering, hrequired]

end Spec
end Quorum
