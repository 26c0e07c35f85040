import Quorum.Proofs.Authorization
import Quorum.Proofs.ChangeOrder
import Quorum.Proofs.Validity

/-!
# The guard sees no order

The guard compares, looks up and counts, and asks for a group's claim only where the group is
listed. So its answer and the reason it gives are the same for every order of approvers, members
and responses, and for all claims that agree on the groups listed (`authorize_sees_no_order`).
-/
namespace Quorum

/-- A group that the specification or the status of the task lists. -/
def Task.ListsGroup (t : Task) (group : String) : Prop :=
  (∃ a ∈ t.spec.approvers, a.kind = .group ∧ a.name = group) ∨
    ∃ r ∈ t.status.responses, r.kind = .group ∧ r.name = group

/-- The task with its approvers and responses in another order. -/
def Task.reordered (t : Task) (as : List Approver) (rs : List Response) : Task :=
  { t with spec := t.spec.withApprovers as, status := { t.status with responses := rs } }

def Principal.withGroups (p : Principal) (groups : List String) : Principal := { p with groups }

theorem Principal.claims_withGroups {p : Principal} {groups : List String} {group : String}
    (h : group ∈ groups ↔ group ∈ p.groups) :
    (p.withGroups groups).claims group = p.claims group := by
  rw [Bool.eq_iff_iff, claims, claims, List.contains_iff_mem, List.contains_iff_mem]
  exact h

namespace Guard

/-- The edit of `old` to `new` by `p` is given in another order of approvers and members, and with
claims that agree on the groups of `old`. -/
structure Rephrased (old new : Spec) (p : Principal) (as bs : List Approver)
    (groups : List String) : Prop where
  old_wellFormed : old.WellFormed
  new_wellFormed : new.WellFormed
  old_order : Approver.Reordering old.approvers as
  new_order : Approver.Reordering new.approvers bs
  claims : ∀ a ∈ old.approvers, a.kind = .group → (a.name ∈ groups ↔ a.name ∈ p.groups)

namespace Rephrased
variable {old new : Spec} {p : Principal} {as bs : List Approver} {groups : List String}

theorem belongsTo_eq (h : Rephrased old new p as bs groups) {group : String}
    (hlisted : ∃ a ∈ old.approvers, a.kind = .group ∧ a.name = group) :
    belongsTo (old.withApprovers as) group (p.withGroups groups) = belongsTo old group p := by
  obtain ⟨a, ha, hkind, rfl⟩ := hlisted
  rw [belongsTo, belongsTo, Principal.claims_withGroups (h.claims a ha hkind)]
  rcases Spec.approver?_withApprovers h.old_wellFormed h.old_order .group a.name with
    ⟨hfind, hfind'⟩ | ⟨o, ho, ms, hms, hfind, hfind'⟩
  · rw [hfind, hfind']
    rfl
  · have hmember := Approver.member?_withMembers hms (h.old_wellFormed.members_distinct ho)
    rw [hfind, hfind', Option.any_some, Option.any_some, hmember]
    rfl

theorem eligible_eq (h : Rephrased old new p as bs groups) :
    eligible (old.withApprovers as) (p.withGroups groups) = eligible old p := by
  have hempty : as = [] ↔ old.approvers = [] := (MatchedBy.eq_nil_iff h.old_order).symm
  rw [Bool.eq_iff_iff, eligible, eligible, Bool.or_eq_true, Bool.or_eq_true, List.isEmpty_iff,
    List.isEmpty_iff, List.any_eq_true, List.any_eq_true]
  refine or_congr hempty (MatchedBy.exists_iff h.old_order fun a ha b _ hab => ?_).symm
  obtain @⟨ms, -⟩ := hab
  cases hkind : a.kind with
  | group => simp only [Approver.withMembers, hkind, h.belongsTo_eq ⟨a, ha, hkind, rfl⟩]
  | _ => simp only [Approver.withMembers, Principal.withGroups, hkind]

theorem ownsGroupVote_eq (h : Rephrased old new p as bs groups) (group user : String) (v : Vote) :
    ownsGroupVote (old.withApprovers as) (new.withApprovers bs) group user v =
      ownsGroupVote old new group user v := by
  have hafter : ((new.withApprovers bs).approver? .group group).bind (·.member? user) =
      (new.approver? .group group).bind (·.member? user) := by
    rcases Spec.approver?_withApprovers h.new_wellFormed h.new_order .group group with
      ⟨hfind, hfind'⟩ | ⟨n, hn, ms, hms, hfind, hfind'⟩
    · rw [hfind, hfind']
    · rw [hfind, hfind', Option.bind_some, Option.bind_some,
        Approver.member?_withMembers hms (h.new_wellFormed.members_distinct hn)]
  rw [ownsGroupVote, ownsGroupVote, hafter]
  rcases Spec.approver?_withApprovers h.old_wellFormed h.old_order .group group with
    ⟨hfind, hfind'⟩ | ⟨o, ho, ms, hms, hfind, hfind'⟩
  · rw [hfind, hfind']
  · have hmember := Approver.member?_withMembers hms (h.old_wellFormed.members_distinct ho)
    have hempty : (o.withMembers ms).members.isEmpty = o.members.isEmpty := hms.isEmpty_eq.symm
    simp only [hfind, hfind', hmember, hempty]

theorem owns_eq (h : Rephrased old new p as bs groups) {c : Change} (hc : c ∈ old.changesTo new) :
    owns (old.withApprovers as) (new.withApprovers bs) (p.withGroups groups) c =
      owns old new p c := by
  -- Of a group, the guard asks in `old`, where the change comes from; and there the claims agree.
  have hbelongs {group : String} (hgroup : c.group? = some group) :=
    h.belongsTo_eq (Spec.exists_group_of_mem_changesTo h.old_wellFormed h.new_wellFormed hc hgroup)
  cases c with
  | vote key v =>
    obtain ⟨kind, name⟩ := key
    cases kind with
    | group => rw [owns, owns, hbelongs rfl, h.ownsGroupVote_eq]; rfl
    | _ => rfl
  | memberAdded group member v => rw [owns, owns, hbelongs rfl]; rfl
  | message key =>
    obtain ⟨kind, name⟩ := key
    cases kind <;> rfl
  | _ => rfl

theorem groupMessage?_eq (h : Rephrased old new p as bs groups) {c : Change}
    (hc : c ∈ old.changesTo new) :
    groupMessage? (old.withApprovers as) (p.withGroups groups) c = groupMessage? old p c := by
  have hbelongs {group : String} (hgroup : c.group? = some group) :=
    h.belongsTo_eq (Spec.exists_group_of_mem_changesTo h.old_wellFormed h.new_wellFormed hc hgroup)
  cases c with
  | message key =>
    obtain ⟨kind, name⟩ := key
    cases kind with
    | group => rw [groupMessage?, groupMessage?, hbelongs rfl]
    | _ => rfl
  | _ => rfl

theorem changesTo_eq (h : Rephrased old new p as bs groups) :
    (old.withApprovers as).changesTo (new.withApprovers bs) = old.changesTo new :=
  Spec.changesTo_congr h.old_wellFormed h.new_wellFormed h.old_order h.new_order

theorem plainChanges_eq (h : Rephrased old new p as bs groups) :
    plainChanges (old.withApprovers as) (new.withApprovers bs) (p.withGroups groups) =
      plainChanges old new p := by
  rw [plainChanges, plainChanges, h.changesTo_eq]
  exact List.filter_congr fun c hc => by rw [h.groupMessage?_eq hc]

theorem owns_eq_of_plain (h : Rephrased old new p as bs groups) {c : Change}
    (hc : c ∈ plainChanges old new p) :
    owns (old.withApprovers as) (new.withApprovers bs) (p.withGroups groups) c =
      owns old new p c :=
  h.owns_eq (List.mem_of_mem_filter hc)

theorem votes_eq (h : Rephrased old new p as bs groups) :
    votes (old.withApprovers as) (new.withApprovers bs) (p.withGroups groups) =
      votes old new p := by
  rw [votes, votes, h.plainChanges_eq, List.filter_congr fun _ => h.owns_eq_of_plain]

theorem groupMessages_eq (h : Rephrased old new p as bs groups) :
    groupMessages (old.withApprovers as) (new.withApprovers bs) (p.withGroups groups) =
      groupMessages old new p := by
  rw [groupMessages, groupMessages, h.changesTo_eq]
  exact List.filterMap_congr fun _ => h.groupMessage?_eq

theorem any_owns_eq (h : Rephrased old new p as bs groups) (f : Bool → Bool) :
    ((plainChanges old new p).any fun c =>
        f (owns (old.withApprovers as) (new.withApprovers bs) (p.withGroups groups) c)) =
      (plainChanges old new p).any fun c => f (owns old new p c) := by
  rw [Bool.eq_iff_iff, List.any_eq_true, List.any_eq_true]
  exact exists_congr fun c => and_congr_right fun hc => by rw [h.owns_eq_of_plain hc]

theorem changesOwn_eq (h : Rephrased old new p as bs groups) :
    changesOwn (old.withApprovers as) (new.withApprovers bs) (p.withGroups groups) =
      changesOwn old new p := by
  rw [changesOwn, changesOwn, h.votes_eq, h.groupMessages_eq, h.plainChanges_eq]
  exact congrArg (· || _) (h.any_owns_eq id)

theorem changesForeign_eq (h : Rephrased old new p as bs groups) :
    changesForeign (old.withApprovers as) (new.withApprovers bs) (p.withGroups groups) =
      changesForeign old new p := by
  rw [changesForeign, changesForeign, h.votes_eq, h.groupMessages_eq, h.plainChanges_eq]
  exact congrArg (· || _) (h.any_owns_eq not)

theorem mem_recordedInSpec_iff (h : Rephrased old new p as bs groups) {o : Outcome} :
    o ∈ recordedInSpec (old.withApprovers as) (p.withGroups groups) ↔ o ∈ recordedInSpec old p := by
  rw [recordedInSpec, recordedInSpec, List.mem_flatMap, List.mem_flatMap]
  refine (MatchedBy.exists_iff h.old_order fun a ha b _ hab => ?_).symm
  obtain @⟨ms, hms⟩ := hab
  cases hkind : a.kind with
  | group =>
    have hrecords : (a.members.filter (·.name = p.username)).filterMap (·.vote.outcome?) |>.Perm
        ((ms.filter (·.name = p.username)).filterMap (·.vote.outcome?)) :=
      (hms.filter _).filterMap _
    simp only [Approver.withMembers, hkind, Principal.claims_withGroups (h.claims a ha hkind),
      ← hms.isEmpty_eq]
    split
    · rfl
    · exact hrecords.mem_iff
  | _ => simp only [Approver.withMembers, Principal.withGroups, hkind]

end Rephrased

theorem mem_recordedInStatus_iff {s : Status} {p : Principal} {rs : List Response}
    {groups : List String} {o : Outcome} (hrs : Response.Reordering s.responses rs)
    (hclaims : ∀ r ∈ s.responses, r.kind = .group → (r.name ∈ groups ↔ r.name ∈ p.groups)) :
    o ∈ recordedInStatus { s with responses := rs } (p.withGroups groups) ↔
      o ∈ recordedInStatus s p := by
  rw [recordedInStatus, recordedInStatus, List.mem_flatMap, List.mem_flatMap]
  refine (MatchedBy.exists_iff hrs fun r hr q _ hrq => ?_).symm
  obtain @⟨ms, hms⟩ := hrq
  cases hkind : r.kind with
  | group =>
    have hrecords : ((r.members.filter (·.name = p.username)).map (·.response)).Perm
        ((ms.filter (·.name = p.username)).map (·.response)) :=
      (hms.filter _).map _
    simp only [Response.withMembers, hkind, Principal.claims_withGroups (hclaims r hr hkind),
      ← hms.isEmpty_eq]
    split
    · rfl
    · exact hrecords.mem_iff
  | _ => simp only [Response.withMembers, Principal.withGroups, hkind]

end Guard

open Guard in
/-- The guard answers a task and an edit alike, however their approvers, members and responses are
ordered and whatever else the user claims. -/
theorem authorize_sees_no_order (old : Task) (new : Spec) (p : Principal) (as bs : List Approver)
    (rs : List Response) (groups : List String) (hold : old.spec.validate = .ok ())
    (hnew : new.validate = .ok ()) (has : Approver.Reordering old.spec.approvers as)
    (hbs : Approver.Reordering new.approvers bs) (hrs : Response.Reordering old.status.responses rs)
    (hgroups : ∀ group, old.ListsGroup group → (group ∈ groups ↔ group ∈ p.groups)) :
    authorize (old.reordered as rs) (new.withApprovers bs) (p.withGroups groups) =
      authorize old new p := by
  have h : Rephrased old.spec new p as bs groups :=
    ⟨Spec.validate_eq_ok_iff.mp hold, Spec.validate_eq_ok_iff.mp hnew, has, hbs,
      fun a ha hkind => hgroups a.name (.inl ⟨a, ha, hkind, rfl⟩)⟩
  have htally : (old.spec.withApprovers as).tally = old.spec.tally := (Spec.tally_congr has).symm
  have hrecorded (o : Outcome) : (recorded (old.reordered as rs) (p.withGroups groups)).contains o =
      (recorded old p).contains o := by
    rw [Bool.eq_iff_iff, List.contains_iff_mem, List.contains_iff_mem, recorded, recorded,
      List.mem_append, List.mem_append]
    exact or_congr h.mem_recordedInSpec_iff (mem_recordedInStatus_iff hrs
      fun r hr hkind => hgroups r.name (.inr ⟨r, hr, hkind, rfl⟩))
  simp only [authorize, hrecorded]
  simp only [Task.reordered, htally, h.votes_eq, h.eligible_eq, h.changesOwn_eq,
    h.changesForeign_eq]
  rfl

/-- A team of which one member rejected and another had approved, and a user who approved. -/
def teamGate : Task where
  spec := ⟨Approver.teamList, 2, none⟩
  status := { responses := [
    { name := "team", kind := .group, response := .rejected,
      members := [⟨"bob", .rejected, some ""⟩, ⟨"dan", .approved, none⟩] },
    { name := "ann", response := .approved, message := some "fine" }] }

/-- The specification in which the last member of the team rejects, too. -/
def teamRejection : Spec :=
  ⟨[{ name := "team", kind := .group, message := some "",
      members := [⟨"bob", .reject⟩, ⟨"cid", .reject⟩] },
    { name := "ann", vote := .approve, message := some "fine" }], 2, none⟩

theorem turned_team_gets_same_answer :
    authorize teamGate teamRejection ⟨"cid", ["team"]⟩ = .allow ∧
      authorize
        (teamGate.reordered Approver.turnedTeamList
          [{ name := "ann", response := .approved, message := some "fine" },
            { name := "team", kind := .group, response := .rejected,
              members := [⟨"dan", .approved, none⟩, ⟨"bob", .rejected, some ""⟩] }])
        (teamRejection.withApprovers
          [{ name := "ann", vote := .approve, message := some "fine" },
            { name := "team", kind := .group, message := some "",
              members := [⟨"cid", .reject⟩, ⟨"bob", .reject⟩] }])
        (Principal.withGroups ⟨"cid", ["team"]⟩ ["ops", "team", "team"]) = .allow := by
  have hchanges : teamGate.spec.changesTo teamRejection =
      [.memberVote "team" "cid" .reject] := by cbv
  have hanswer : authorize teamGate teamRejection ⟨"cid", ["team"]⟩ = .allow := by
    refine Guard.authorize_eq_allow_iff.mpr
      (Guard.cleared_of_vote (.group "team") .reject hchanges ?_ ?_ ?_ ?_ ?_ ?_ ?_ ?_) <;>
      decide
  refine ⟨hanswer, (authorize_sees_no_order _ _ _ _ _ _ _ ?_ ?_ Approver.teamList_reordering ?_ ?_
    ?_).trans hanswer⟩
  · exact Spec.validate_eq_ok_iff.mpr (Spec.problems_eq_nil_iff.mp (by decide))
  · exact Spec.validate_eq_ok_iff.mpr (Spec.problems_eq_nil_iff.mp (by decide))
  · exact ⟨teamRejection.approvers.reverse, by decide,
      .cons (.intro (.refl _)) (.cons (.intro (by decide)) .nil)⟩
  · exact ⟨teamGate.status.responses.reverse, by decide,
      .cons (.intro (.refl _)) (.cons (.intro (by decide)) .nil)⟩
  · intro group hlisted
    have hteam : group = "team" := by
      simpa [Task.ListsGroup, teamGate, Approver.teamList, eq_comm] using hlisted
    simp [hteam]

end Quorum
