import Quorum.Ballot
import Quorum.Proofs.Change
import Quorum.Proofs.Record
import Quorum.Proofs.Tally
import Quorum.WellFormed

/-!
# The slot of a vote

A vote goes to the voter's user entry, or else to the first group they belong to (`Ballot.slot?`).
It marks that approver and no other (`Ballot.edit?_eq`): the voter's vote is then the one that was
cast, and the slots of all other voters hold what they held before. A voter who had not decided
adds one name to those who approve, or a rejection, and takes nothing away.
-/
namespace Quorum

/-- Of distinct items the first that satisfies `p` is the only one to change. -/
theorem modifyFirst?_eq [DecidableEq α] {p : α → Bool} {f : α → α} {as : List α} (h : as.Nodup) :
    modifyFirst? p f as =
      (as.find? p).map fun a => as.map fun x => if x = a then f x else x := by
  induction as with
  | nil => rfl
  | cons a as ih =>
    obtain ⟨ha, has⟩ := List.nodup_cons.mp h
    rw [modifyFirst?, List.find?_cons]
    cases hp : p a with
    | true =>
      have hrest : as.map (fun x => if x = a then f x else x) = as := by
        have hkept : ∀ x ∈ as, (if x = a then f x else x) = x := fun x hx =>
          if_neg fun hxa : x = a => ha (hxa ▸ hx)
        exact (List.map_congr_left hkept).trans (List.map_id' as)
      simp [hrest]
    | false =>
      simp only [Bool.false_eq_true, if_false, ih has, Option.map_map]
      refine Option.map_congr fun x hx => ?_
      have hne : a ≠ x := fun hax => ha (hax ▸ List.mem_of_find?_eq_some hx)
      simp [hne]

namespace Ballot
variable {b c : Ballot} {s : Spec} {a o n : Approver}

/-- The approver that the vote goes to: the voter's own entry, or else the first of their groups. -/
def slot? (b : Ballot) (s : Spec) : Option Approver :=
  (s.approvers.find? b.isUserEntry).or (s.approvers.find? b.isOwnGroup)

/-- The voter's vote as the approver has it: the entry's own for a user, and for a group the one on
record. -/
def voteIn? (b : Ballot) (a : Approver) : Option Vote :=
  if a.isGroup then (a.member? b.principal.username).map (·.vote) else some a.vote

/-- The vote in the voter's slot. An edit changes it for one voter and, by `slotVote?_markAt_of_ne`,
for nobody else. -/
def slotVote? (b : Ballot) (s : Spec) : Option Vote := (b.slot? s).bind b.voteIn?

/-- The approver with the vote in it, whichever kind it is. An edit marks one approver and keeps the
others. -/
def mark (b : Ballot) (a : Approver) : Approver :=
  if a.isGroup then b.inGroup a else b.inUserEntry a

/-- The specification with the vote in one of its entries. Only entries that are equal to `o`
change, and in a valid specification there is just the one. -/
def markAt (b : Ballot) (s : Spec) (o : Approver) : Spec :=
  { s with approvers := s.approvers.map fun a => if a = o then b.mark a else a }

theorem mark_of_group (h : a.kind = .group) : b.mark a = b.inGroup a := by
  simp [mark, Approver.isGroup, h]

theorem mark_of_not_group (h : a.kind ≠ .group) : b.mark a = b.inUserEntry a := by
  simp [mark, Approver.isGroup, h]

@[simp] theorem kind_mark : (b.mark a).kind = a.kind := by
  unfold mark
  split <;> rfl

@[simp] theorem name_mark : (b.mark a).name = a.name := by
  unfold mark
  split <;> rfl

@[simp] theorem vote_mark : (b.mark a).vote = b.vote := by
  unfold mark
  split <;> rfl

@[simp] theorem key_mark : (b.mark a).key = a.key := by
  rw [Approver.key, kind_mark, name_mark, Approver.key]

theorem members_mark_of_not_group (h : a.kind ≠ .group) : (b.mark a).members = a.members := by
  rw [mark_of_not_group h]
  rfl

/-- The voter's record is moved in its place, or added at the end. -/
theorem members_inGroup (distinct : (a.members.map (·.name)).Nodup) :
    (b.inGroup a).members =
      if a.members.any (·.name = b.principal.username) then
        a.members.map fun m =>
          if m.name = b.principal.username then { m with vote := b.vote } else m
      else a.members ++ [⟨b.principal.username, b.vote⟩] := by
  simp only [inGroup, modifyFirst?_eq (List.Nodup.of_map _ distinct)]
  cases hfind : a.members.find? (·.name = b.principal.username) with
  | none =>
    have hnone : a.members.any (·.name = b.principal.username) = false := by
      simpa using hfind
    simp [hnone]
  | some m =>
    obtain ⟨hm, hname⟩ := (find?_key_eq_some_iff distinct).mp hfind
    have hsome : a.members.any (·.name = b.principal.username) = true :=
      List.any_eq_true.mpr ⟨m, hm, by simpa using hname⟩
    simp only [hsome, if_true, Option.map_some]
    refine List.map_congr_left fun x hx => ?_
    have hiff : x = m ↔ x.name = b.principal.username :=
      ⟨fun hxm => hxm ▸ hname,
        fun hxname => List.inj_on_of_nodup_map distinct hx hm (hxname.trans hname.symm)⟩
    simp only [hiff]

theorem mem_members_mark_iff (distinct : (a.members.map (·.name)).Nodup) (hkind : a.kind = .group)
    {m : Member} :
    m ∈ (b.mark a).members ↔
      m = ⟨b.principal.username, b.vote⟩ ∨ m ∈ a.members ∧ m.name ≠ b.principal.username := by
  rw [mark_of_group hkind, members_inGroup distinct]
  by_cases hany : a.members.any (·.name = b.principal.username) = true
  · rw [if_pos hany, List.mem_map]
    constructor
    · intro h
      obtain ⟨x, hx, rfl⟩ := h
      by_cases hname : x.name = b.principal.username
      · exact .inl (by simp [hname])
      · exact .inr (by simp [hname, hx])
    · intro h
      rcases h with rfl | ⟨hm, hname⟩
      · obtain ⟨x, hx, hname⟩ := List.any_eq_true.mp hany
        have hname : x.name = b.principal.username := by simpa using hname
        exact ⟨x, hx, by simp [hname]⟩
      · exact ⟨m, hm, if_neg hname⟩
  · rw [if_neg hany, List.mem_append, List.mem_singleton, or_comm]
    have hnone : ∀ m ∈ a.members, m.name ≠ b.principal.username := by simpa using hany
    exact or_congr_right ⟨fun hm => ⟨hm, hnone m hm⟩, fun h => h.1⟩

theorem members_mark_distinct (distinct : (a.members.map (·.name)).Nodup) :
    ((b.mark a).members.map (·.name)).Nodup := by
  by_cases hkind : a.kind = .group
  · rw [mark_of_group hkind, members_inGroup distinct]
    by_cases hany : a.members.any (·.name = b.principal.username) = true
    · have hnames : (a.members.map fun m =>
          if m.name = b.principal.username then { m with vote := b.vote } else m).map (·.name) =
          a.members.map (·.name) := by
        rw [List.map_map]
        refine List.map_congr_left fun m _ => ?_
        by_cases hname : m.name = b.principal.username <;> simp [hname]
      rw [if_pos hany, hnames]
      exact distinct
    · have hnone : ∀ m ∈ a.members, m.name ≠ b.principal.username := by simpa using hany
      rw [if_neg hany, List.map_append, List.map_singleton, List.nodup_append]
      refine ⟨distinct, by simp, ?_⟩
      simpa using hnone
  · rwa [members_mark_of_not_group hkind]

theorem voteIn?_mark (distinct : (a.members.map (·.name)).Nodup) :
    b.voteIn? (b.mark a) = some b.vote := by
  unfold voteIn?
  by_cases hkind : a.kind = .group
  · have hmember : (b.mark a).member? b.principal.username =
        some ⟨b.principal.username, b.vote⟩ :=
      (Approver.member?_eq_some_iff (members_mark_distinct distinct)).mpr
        ⟨(mem_members_mark_iff distinct hkind).mpr (.inl rfl), rfl⟩
    simp [Approver.isGroup, hkind, hmember]
  · simp [Approver.isGroup, hkind]

@[simp] theorem isUserEntry_iff :
    b.isUserEntry a = true ↔ a.kind = .user ∧ a.name = b.principal.username := by
  simp [isUserEntry]

theorem isOwnGroup_iff :
    b.isOwnGroup a = true ↔ a.kind = .group ∧
      (b.principal.claims a.name = true ∨ ∃ m ∈ a.members, m.name = b.principal.username) := by
  simp [isOwnGroup, Approver.isGroup, Approver.member?_isSome_iff]

theorem own_of_slot? (h : b.slot? s = some o) :
    o ∈ s.approvers ∧ (b.isUserEntry o = true ∨ b.isOwnGroup o = true) := by
  rcases Option.or_eq_some_iff.mp h with huser | ⟨-, hgroup⟩
  · exact ⟨List.mem_of_find?_eq_some huser, .inl (List.find?_some huser)⟩
  · exact ⟨List.mem_of_find?_eq_some hgroup, .inr (List.find?_some hgroup)⟩

theorem isUserEntry_mark : c.isUserEntry (b.mark a) = c.isUserEntry a := by
  simp [isUserEntry]

/-- Marking an approver shows nobody else's slot another group. -/
theorem isOwnGroup_mark (distinct : (a.members.map (·.name)).Nodup)
    (hne : c.principal.username ≠ b.principal.username) :
    c.isOwnGroup (b.mark a) = c.isOwnGroup a := by
  rw [Bool.eq_iff_iff, isOwnGroup_iff, isOwnGroup_iff, kind_mark, name_mark]
  refine and_congr_right fun hkind => or_congr_right ?_
  simp only [mem_members_mark_iff distinct hkind]
  constructor
  · intro h
    obtain ⟨m, rfl | ⟨hm, -⟩, hname⟩ := h
    · exact absurd hname.symm hne
    · exact ⟨m, hm, hname⟩
  · intro h
    obtain ⟨m, hm, hname⟩ := h
    exact ⟨m, .inr ⟨hm, hname ▸ hne⟩, hname⟩

/-- An edit marks the approver that the vote goes to. -/
theorem edit?_eq (distinct : (s.approvers.map Approver.key).Nodup) :
    b.edit? s = (b.slot? s).map (b.markAt s) := by
  have hnodup := List.Nodup.of_map _ distinct
  rw [edit?, modifyFirst?_eq hnodup, modifyFirst?_eq hnodup, slot?]
  cases huser : s.approvers.find? b.isUserEntry with
  | some o =>
    have hkind : o.kind = .user := (isUserEntry_iff.mp (List.find?_some huser)).1
    simp only [Option.map_some, Option.some_or, markAt, Option.some.injEq, Spec.mk.injEq, and_true]
    refine List.map_congr_left fun a _ => ?_
    by_cases ha : a = o
    · simp only [if_pos ha]
      exact (mark_of_not_group (by simp [ha, hkind])).symm
    · simp only [if_neg ha]
  | none =>
    cases hgroup : s.approvers.find? b.isOwnGroup with
    | none => rfl
    | some o =>
      have hkind : o.kind = .group := (isOwnGroup_iff.mp (List.find?_some hgroup)).1
      simp only [Option.map_some, Option.map_none, Option.none_or, markAt, Option.some.injEq,
        Spec.mk.injEq, and_true]
      refine List.map_congr_left fun a _ => ?_
      by_cases ha : a = o
      · simp only [if_pos ha]
        exact (mark_of_group (ha ▸ hkind)).symm
      · simp only [if_neg ha]

theorem mem_markAt_iff (ho : o ∈ s.approvers) :
    n ∈ (b.markAt s o).approvers ↔ n = b.mark o ∨ n ∈ s.approvers ∧ n ≠ o := by
  simp only [markAt, List.mem_map]
  constructor
  · intro h
    obtain ⟨a, ha, rfl⟩ := h
    by_cases hao : a = o
    · exact .inl (by rw [if_pos hao, hao])
    · exact .inr (by rw [if_neg hao]; exact ⟨ha, hao⟩)
  · intro h
    rcases h with rfl | ⟨hn, hno⟩
    · exact ⟨o, ho, if_pos rfl⟩
    · exact ⟨n, hn, if_neg hno⟩

@[simp] theorem keys_markAt :
    (b.markAt s o).approvers.map Approver.key = s.approvers.map Approver.key := by
  rw [markAt, List.map_map]
  refine List.map_congr_left fun a _ => ?_
  by_cases ha : a = o <;> simp [ha]

theorem sameShape_markAt (distinct : (s.approvers.map Approver.key).Nodup) :
    s.SameShape (b.markAt s o) where
  required_eq := rfl
  description_eq := rfl
  old_distinct := distinct
  new_distinct := by rwa [keys_markAt]
  keys key := by rw [keys_markAt]

/-- The slot of a voter is where it was, if the mark shows them the same entries and groups. -/
theorem slot?_markAt (hgroup : c.isOwnGroup (b.mark o) = c.isOwnGroup o) :
    c.slot? (b.markAt s o) = (c.slot? s).map fun a => if a = o then b.mark a else a := by
  have huser : c.isUserEntry ∘ (fun a => if a = o then b.mark a else a) = c.isUserEntry := by
    funext a
    by_cases ha : a = o <;> simp [ha, isUserEntry_mark]
  have hgroup : c.isOwnGroup ∘ (fun a => if a = o then b.mark a else a) = c.isOwnGroup := by
    funext a
    by_cases ha : a = o <;> simp [ha, hgroup]
  rw [slot?, markAt, List.find?_map, List.find?_map, huser, hgroup, slot?]
  cases s.approvers.find? c.isUserEntry <;> simp

/-- The vote that was cast is in the voter's slot. -/
theorem slotVote?_markAt (hvalid : s.WellFormed) (hslot : b.slot? s = some o) :
    b.slotVote? (b.markAt s o) = some b.vote := by
  obtain ⟨ho, hown⟩ := own_of_slot? hslot
  have distinct := (hvalid.approvers_wellFormed o ho).members_distinct
  have hgroup : b.isOwnGroup (b.mark o) = b.isOwnGroup o := by
    rcases hown with huser | hgroup
    · have hkind := (isUserEntry_iff.mp huser).1
      rw [Bool.eq_iff_iff, isOwnGroup_iff, isOwnGroup_iff]
      simp [hkind]
    · have hkind := (isOwnGroup_iff.mp hgroup).1
      rw [hgroup, isOwnGroup_iff, kind_mark]
      exact ⟨hkind, .inr ⟨_, (mem_members_mark_iff distinct hkind).mpr (.inl rfl), rfl⟩⟩
  rw [slotVote?, slot?_markAt hgroup, hslot]
  simp [voteIn?_mark distinct]

/-- No other voter's slot is touched, whether the vote went to a user entry or to a group. -/
theorem slotVote?_markAt_of_ne (hvalid : s.WellFormed) (hslot : b.slot? s = some o)
    (hne : c.principal.username ≠ b.principal.username) :
    c.slotVote? (b.markAt s o) = c.slotVote? s := by
  obtain ⟨ho, hown⟩ := own_of_slot? hslot
  have distinct := (hvalid.approvers_wellFormed o ho).members_distinct
  rw [slotVote?, slot?_markAt (isOwnGroup_mark distinct hne), slotVote?]
  cases hc : c.slot? s with
  | none => rfl
  | some a =>
    simp only [Option.map_some, Option.bind_some]
    by_cases ha : a = o
    · subst ha
      obtain ⟨-, hother⟩ := own_of_slot? hc
      -- A user entry has one owner, so two voters can share a group only.
      have hkind : a.kind = .group := by
        rcases hown with huser | hgroup
        · rcases hother with huser' | hgroup'
          · rw [isUserEntry_iff] at huser huser'
            exact absurd (huser'.2.symm.trans huser.2) hne
          · exact (isOwnGroup_iff.mp hgroup').1
        · exact (isOwnGroup_iff.mp hgroup).1
      have hmember : (b.mark a).member? c.principal.username = a.member? c.principal.username := by
        refine Option.ext fun m => ?_
        rw [Approver.member?_eq_some_iff (members_mark_distinct distinct),
          Approver.member?_eq_some_iff distinct, mem_members_mark_iff distinct hkind]
        constructor
        · intro h
          obtain ⟨rfl | ⟨hm, -⟩, hname⟩ := h
          · exact absurd hname.symm hne
          · exact ⟨hm, hname⟩
        · intro h
          obtain ⟨hm, hname⟩ := h
          exact ⟨.inr ⟨hm, hname ▸ hne⟩, hname⟩
      simp [voteIn?, Approver.isGroup, hkind, hmember]
    · rw [if_neg ha]

theorem slot?_isSome_markAt (hvalid : s.WellFormed) (hslot : b.slot? s = some o)
    (hne : c.principal.username ≠ b.principal.username) :
    (c.slot? (b.markAt s o)).isSome = (c.slot? s).isSome := by
  have distinct := (hvalid.approvers_wellFormed o (own_of_slot? hslot).1).members_distinct
  rw [slot?_markAt (isOwnGroup_mark distinct hne), Option.isSome_map]

theorem wellFormed_mark (h : a.WellFormed) (hname : UserName b.principal.username)
    (hknown : b.vote.isKnown = true) : (b.mark a).WellFormed := by
  have distinct := members_mark_distinct (b := b) h.members_distinct
  by_cases hkind : a.kind = .group
  · have hmem : ∀ m ∈ (b.mark a).members,
        m = ⟨b.principal.username, b.vote⟩ ∨ m ∈ a.members := fun m hm =>
      ((mem_members_mark_iff h.members_distinct hkind).mp hm).imp_right And.left
    refine ⟨by simpa using h.named, by simpa using hknown, fun _ => by simpa using hkind, ?_, ?_,
      distinct⟩
    · intro m hm
      rcases hmem m hm with rfl | hm
      · exact hname
      · exact h.members_named m hm
    · intro m hm
      rcases hmem m hm with rfl | hm
      · exact hknown
      · exact h.members_known m hm
  · rw [members_mark_of_not_group hkind] at distinct
    exact ⟨by simpa using h.named, by simpa using hknown,
      by simpa [members_mark_of_not_group hkind] using h.group_of_members,
      by simpa [members_mark_of_not_group hkind] using h.members_named,
      by simpa [members_mark_of_not_group hkind] using h.members_known,
      by rwa [members_mark_of_not_group hkind]⟩

theorem wellFormed_markAt (h : s.WellFormed) (hslot : b.slot? s = some o)
    (hname : UserName b.principal.username) (hknown : b.vote.isKnown = true) :
    (b.markAt s o).WellFormed where
  required_pos := h.required_pos
  approvers_ne_nil := by simpa [markAt] using h.approvers_ne_nil
  approvers_distinct := by simpa using h.approvers_distinct
  approvers_wellFormed n hn := by
    obtain ⟨ho, -⟩ := own_of_slot? hslot
    rcases (mem_markAt_iff ho).mp hn with rfl | ⟨hn, -⟩
    · exact wellFormed_mark (h.approvers_wellFormed o ho) hname hknown
    · exact h.approvers_wellFormed n hn

end Ballot

/-- No decision of the principal is on record with the approver. -/
structure Approver.UndecidedBy (a : Approver) (p : Principal) : Prop where
  entry : a.kind = .user → a.name = p.username → a.vote.isDecided = false
  record : a.kind = .group → ∀ m ∈ a.members, m.name = p.username → m.vote.isDecided = false
  claim : a.kind = .group → a.members = [] → p.claims a.name = true → a.vote.isDecided = false

/-- Nothing in the specification stands against a first vote of the principal. -/
def Spec.UndecidedBy (s : Spec) (p : Principal) : Prop := ∀ a ∈ s.approvers, a.UndecidedBy p

/-- A decision of the group is that of a member. -/
def Approver.Carried (a : Approver) : Prop :=
  a.kind = .group → a.vote.isDecided = true → ∃ m ∈ a.members, m.vote = a.vote

def Spec.Carried (s : Spec) : Prop := ∀ a ∈ s.approvers, a.Carried

theorem Spec.AllPending.undecidedBy {s : Spec} (h : s.AllPending) (p : Principal) :
    s.UndecidedBy p := by
  intro a ha
  have hvote : a.vote.isDecided = false := by rw [h.approvers_pending a ha]; rfl
  refine ⟨fun _ _ => hvote, fun _ m hm _ => ?_, fun _ _ _ => hvote⟩
  rw [h.members_pending a ha m hm]
  rfl

theorem Spec.AllPending.carried {s : Spec} (h : s.AllPending) : s.Carried := by
  intro a ha _ hdecided
  rw [h.approvers_pending a ha] at hdecided
  cases hdecided

theorem Vote.outcome?_eq_none_iff {v : Vote} : v.outcome? = none ↔ v.isDecided = false := by
  cases v <;> simp [outcome?, isDecided]

/-- What the guard finds on record in a specification is what its approvers hold. -/
theorem Guard.recordedInSpec_eq_nil_iff {s : Spec} {p : Principal} :
    recordedInSpec s p = [] ↔ s.UndecidedBy p := by
  rw [recordedInSpec, List.flatMap_eq_nil_iff]
  refine forall_congr' fun a => forall_congr' fun _ => ?_
  cases hkind : a.kind with
  | user =>
    by_cases hname : a.name = p.username
    · rw [if_pos hname, Option.toList_eq_nil_iff, Vote.outcome?_eq_none_iff]
      exact ⟨fun h => ⟨fun _ _ => h, by simp [hkind], by simp [hkind]⟩,
        fun h => h.entry hkind hname⟩
    · rw [if_neg hname]
      exact ⟨fun _ => ⟨fun _ h => absurd h hname, by simp [hkind], by simp [hkind]⟩, fun _ => rfl⟩
  | group =>
    by_cases hmembers : a.members = []
    · simp only [hmembers, List.isEmpty_nil, if_true]
      by_cases hclaims : p.claims a.name = true
      · rw [if_pos hclaims, Option.toList_eq_nil_iff, Vote.outcome?_eq_none_iff]
        exact ⟨fun h => ⟨by simp [hkind], by simp [hmembers], fun _ _ _ => h⟩,
          fun h => h.claim hkind hmembers hclaims⟩
      · rw [if_neg hclaims]
        exact ⟨fun _ => ⟨by simp [hkind], by simp [hmembers], fun _ _ h => absurd h hclaims⟩,
          fun _ => rfl⟩
    · simp only [List.isEmpty_iff, hmembers, if_false, List.filterMap_eq_nil_iff, List.mem_filter,
        decide_eq_true_eq, Vote.outcome?_eq_none_iff]
      exact ⟨fun h => ⟨by simp [hkind], fun _ m hm hname => h m ⟨hm, hname⟩,
        fun _ h => absurd h hmembers⟩, fun h m hm => h.record hkind m hm.1 hm.2⟩
  | other text =>
    exact ⟨fun _ => ⟨by simp [hkind], by simp [hkind], by simp [hkind]⟩, fun _ => rfl⟩

namespace Ballot
variable {b : Ballot} {s : Spec} {o : Approver} {p : Principal} {name : String}

/-- A vote decides for nobody else, so whoever could still vote before it can vote after it. -/
theorem undecidedBy_markAt (hvalid : s.WellFormed) (hslot : b.slot? s = some o)
    (hne : p.username ≠ b.principal.username) (h : s.UndecidedBy p) :
    (b.markAt s o).UndecidedBy p := by
  obtain ⟨ho, hown⟩ := own_of_slot? hslot
  have distinct := (hvalid.approvers_wellFormed o ho).members_distinct
  intro n hn
  rcases (mem_markAt_iff ho).mp hn with rfl | ⟨hn, -⟩
  · refine ⟨fun hkind hname => ?_, fun hkind m hm hname => ?_, fun hkind hmembers _ => ?_⟩
    · rw [kind_mark] at hkind
      rcases hown with huser | hgroup
      · exact absurd ((name_mark ▸ hname).symm.trans (isUserEntry_iff.mp huser).2) hne
      · cases hkind.symm.trans (isOwnGroup_iff.mp hgroup).1
    · rw [kind_mark] at hkind
      rcases (mem_members_mark_iff distinct hkind).mp hm with rfl | ⟨hm, -⟩
      · exact absurd hname.symm hne
      · exact (h o ho).record hkind m hm hname
    · rw [kind_mark] at hkind
      have hrecord := (mem_members_mark_iff (b := b) distinct hkind).mpr (.inl rfl)
      rw [hmembers] at hrecord
      cases hrecord
  · exact h n hn

theorem carried_markAt (hvalid : s.WellFormed) (hslot : b.slot? s = some o) (h : s.Carried) :
    (b.markAt s o).Carried := by
  obtain ⟨ho, -⟩ := own_of_slot? hslot
  have distinct := (hvalid.approvers_wellFormed o ho).members_distinct
  intro n hn
  rcases (mem_markAt_iff ho).mp hn with rfl | ⟨hn, -⟩
  · intro hkind _
    rw [kind_mark] at hkind
    exact ⟨_, (mem_members_mark_iff distinct hkind).mpr (.inl rfl), vote_mark.symm⟩
  · exact h n hn

/-- A decided member of the slot's group is somebody else. -/
theorem name_ne_of_decided (hundecided : s.UndecidedBy b.principal) (ho : o ∈ s.approvers)
    (hkind : o.kind = .group) {m : Member} (hm : m ∈ o.members) (hvote : m.vote.isDecided = true) :
    m.name ≠ b.principal.username := by
  intro hname
  rw [(hundecided o ho).record hkind m hm hname] at hvote
  cases hvote

/-- What the mark adds to its approver is added to the specification. -/
theorem exists_mem_markAt_iff {P : Approver → Prop} {q : Prop} (ho : o ∈ s.approvers)
    (hmark : P (b.mark o) ↔ P o ∨ q) :
    (∃ n ∈ (b.markAt s o).approvers, P n) ↔ (∃ a ∈ s.approvers, P a) ∨ q := by
  simp only [mem_markAt_iff ho, or_and_right, exists_or, exists_eq_left, hmark]
  constructor
  · intro h
    rcases h with (hold | hnew) | ⟨a, ⟨ha, -⟩, hold⟩
    · exact .inl ⟨o, ho, hold⟩
    · exact .inr hnew
    · exact .inl ⟨a, ha, hold⟩
  · intro h
    rcases h with ⟨a, ha, hold⟩ | hnew
    · by_cases hao : a = o
      · exact .inl (.inl (hao ▸ hold))
      · exact .inr ⟨a, ⟨ha, hao⟩, hold⟩
    · exact .inl (.inr hnew)

/-- The first vote of a voter adds their name to those who approve, or nothing. -/
theorem approvedBy_markAt (hvalid : s.WellFormed) (hslot : b.slot? s = some o)
    (hundecided : s.UndecidedBy b.principal) :
    (b.markAt s o).ApprovedBy name ↔
      s.ApprovedBy name ∨ b.vote = .approve ∧ name = b.principal.username := by
  obtain ⟨ho, hown⟩ := own_of_slot? hslot
  have distinct := (hvalid.approvers_wellFormed o ho).members_distinct
  have hmark : (b.mark o).ApprovedBy name ↔
      o.ApprovedBy name ∨ b.vote = .approve ∧ name = b.principal.username := by
    unfold Approver.ApprovedBy
    rw [kind_mark, name_mark, vote_mark]
    rcases hown with huser | hgroup
    · obtain ⟨hkind, hname⟩ := isUserEntry_iff.mp huser
      have hvote : o.vote ≠ .approve := by
        intro hvote
        have := (hundecided o ho).entry hkind hname
        rw [hvote] at this
        cases this
      simp only [hkind, hname, hvote, true_and, and_false, reduceCtorEq, false_and, or_false,
        false_or]
      exact ⟨fun h => ⟨h.2, h.1.symm⟩, fun h => ⟨h.2.symm, h.1⟩⟩
    · have hkind := (isOwnGroup_iff.mp hgroup).1
      simp only [hkind, reduceCtorEq, false_and, true_and, false_or,
        mem_members_mark_iff distinct hkind, Member.mk.injEq]
      constructor
      · intro h
        rcases h with ⟨rfl, hvote⟩ | ⟨hm, -⟩
        · exact .inr ⟨hvote.symm, rfl⟩
        · exact .inl hm
      · intro h
        rcases h with hm | ⟨hvote, rfl⟩
        · exact .inr ⟨hm, name_ne_of_decided hundecided ho hkind hm rfl⟩
        · exact .inl ⟨rfl, hvote.symm⟩
  exact exists_mem_markAt_iff ho hmark

/-- The first vote of a voter adds their rejection, or nothing. -/
theorem holdsReject_markAt (hvalid : s.WellFormed) (hslot : b.slot? s = some o)
    (hundecided : s.UndecidedBy b.principal) (hcarried : s.Carried) :
    (b.markAt s o).HoldsReject ↔ s.HoldsReject ∨ b.vote = .reject := by
  obtain ⟨ho, hown⟩ := own_of_slot? hslot
  have hwell := hvalid.approvers_wellFormed o ho
  have hmark : (b.mark o).HoldsReject ↔ o.HoldsReject ∨ b.vote = .reject := by
    unfold Approver.HoldsReject
    rw [vote_mark]
    rcases hown with huser | hgroup
    · obtain ⟨hkind, hname⟩ := isUserEntry_iff.mp huser
      have hgroup : o.kind ≠ .group := by simp [hkind]
      have hmembers : o.members = [] := by
        by_contra hne
        exact hgroup (hwell.group_of_members hne)
      have hvote : o.vote ≠ .reject := by
        intro hvote
        have := (hundecided o ho).entry hkind hname
        rw [hvote] at this
        cases this
      simp [members_mark_of_not_group hgroup, hmembers, hvote]
    · have hkind := (isOwnGroup_iff.mp hgroup).1
      simp only [mem_members_mark_iff hwell.members_distinct hkind]
      constructor
      · intro h
        rcases h with hvote | ⟨m, rfl | ⟨hm, -⟩, hvote⟩
        · exact .inr hvote
        · exact .inr hvote
        · exact .inl (.inr ⟨m, hm, hvote⟩)
      · intro h
        -- The group's own rejection is overwritten, but not the member's that it stands for.
        have hmember : (∃ m ∈ o.members, m.vote = .reject) →
            ∃ m, (m = ⟨b.principal.username, b.vote⟩ ∨
              m ∈ o.members ∧ m.name ≠ b.principal.username) ∧ m.vote = .reject := by
          intro h
          obtain ⟨m, hm, hvote⟩ := h
          exact ⟨m, .inr ⟨hm, name_ne_of_decided hundecided ho hkind hm (by rw [hvote]; rfl)⟩,
            hvote⟩
        rcases h with (hvote | hmembers) | hvote
        · obtain ⟨m, hm, hmvote⟩ := hcarried o ho hkind (by rw [hvote]; rfl)
          exact .inr (hmember ⟨m, hm, hmvote.trans hvote⟩)
        · exact .inr (hmember hmembers)
        · exact .inl hvote
  exact exists_mem_markAt_iff ho hmark

end Ballot
end Quorum
