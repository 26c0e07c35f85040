import Quorum.Proofs.Slot
import Quorum.Proofs.Stage

/-!
# The effect of a vote

A vote fills the voter's slot and leaves everything else where it stood, whatever the specification
looks like (`Ballot.fills_of_edit?`): approvers may be repeated and members may stand where only
groups have them. So an approval adds the voter to those who approve and takes nobody away, and a
rejection rejects the task (`Ballot.recorded_vote_counts`).
-/
namespace Quorum

theorem eq_false_of_modifyFirst?_eq_none {p : α → Bool} {f : α → α} {as : List α}
    (h : modifyFirst? p f as = none) : ∀ a ∈ as, p a = false := by
  induction as with
  | nil => simp
  | cons a as ih =>
    rw [modifyFirst?] at h
    split at h
    · cases h
    · next hp =>
      rw [Option.map_eq_none_iff] at h
      simpa [hp] using ih h

/-- What is modified is the first item that satisfies `p`, in its place. -/
theorem exists_of_modifyFirst?_eq_some {p : α → Bool} {f : α → α} {as bs : List α}
    (h : modifyFirst? p f as = some bs) :
    ∃ before a after, as = before ++ a :: after ∧ bs = before ++ f a :: after ∧ p a = true ∧
      ∀ x ∈ before, p x = false := by
  induction as generalizing bs with
  | nil => cases h
  | cons a as ih =>
    rw [modifyFirst?] at h
    split at h
    · next hp =>
      cases h
      exact ⟨[], a, as, rfl, rfl, hp, by simp⟩
    · next hp =>
      obtain ⟨bs, hbs, rfl⟩ := Option.map_eq_some_iff.mp h
      obtain ⟨before, x, after, rfl, rfl, hx, hbefore⟩ := ih hbs
      exact ⟨a :: before, x, after, rfl, rfl, hx, by simpa [hp] using hbefore⟩

namespace Ballot
variable {b : Ballot} {s s' : Spec} {o n : Approver} {name : String}

/-- A group's records without and with the vote in the voter's: moved where it stands, or added
behind all others. -/
inductive FillsRecord (b : Ballot) : List Member → List Member → Prop
  | moved (before after : List Member) (m : Member) (hname : m.name = b.principal.username)
    (hfirst : ∀ x ∈ before, x.name ≠ b.principal.username) :
    FillsRecord b (before ++ m :: after) (before ++ ⟨b.principal.username, b.vote⟩ :: after)
  | added (ms : List Member) (hnone : ∀ m ∈ ms, m.name ≠ b.principal.username) :
    FillsRecord b ms (ms ++ [⟨b.principal.username, b.vote⟩])

/-- The approver that holds the voter's slot, without and with the vote in it. -/
inductive FillsSlot (b : Ballot) : Approver → Approver → Prop
  | user (o : Approver) (howner : b.isUserEntry o = true) :
    FillsSlot b o { o with vote := b.vote, message := b.message.or o.message }
  | group (o : Approver) (ms : List Member) (howner : b.isOwnGroup o = true)
    (hrecord : b.FillsRecord o.members ms) :
    FillsSlot b o { o with members := ms, vote := b.vote, message := b.message.or o.message }

/-- The specification without and with the vote in it. Nothing but the slot differs, which is that
of the voter's first user entry or, if there is none, that of the first group they belong to. -/
structure Fills (b : Ballot) (s s' : Spec) : Prop where
  required_eq : s'.required = s.required
  description_eq : s'.description = s.description
  slot : ∃ before o n after, s.approvers = before ++ o :: after ∧
    s'.approvers = before ++ n :: after ∧ b.FillsSlot o n ∧
    (b.isUserEntry o = true ∧ (∀ a ∈ before, b.isUserEntry a = false) ∨
      (∀ a ∈ s.approvers, b.isUserEntry a = false) ∧ ∀ a ∈ before, b.isOwnGroup a = false)

theorem fillsRecord_inGroup (b : Ballot) (o : Approver) :
    b.FillsRecord o.members (b.inGroup o).members := by
  simp only [inGroup]
  cases hmodify : modifyFirst? (·.name = b.principal.username)
      (fun m : Member => { m with vote := b.vote }) o.members with
  | none =>
    have hnone := eq_false_of_modifyFirst?_eq_none hmodify
    exact .added _ fun m hm => by simpa using hnone m hm
  | some ms =>
    obtain ⟨before, m, after, hold, rfl, hname, hfirst⟩ := exists_of_modifyFirst?_eq_some hmodify
    replace hname : m.name = b.principal.username := by simpa using hname
    simp only [hold, hname]
    exact .moved before after m hname fun x hx => by simpa using hfirst x hx

/-- An edit fills the voter's slot. From here on results speak of slots, and whether it was a user
entry or a group no longer matters. -/
theorem fills_of_edit? (h : b.edit? s = some s') : b.Fills s s' := by
  obtain ⟨as, has, rfl⟩ := Option.map_eq_some_iff.mp h
  refine ⟨rfl, rfl, ?_⟩
  -- a group is looked for only if there is no user entry
  rcases Option.or_eq_some_iff.mp has with huser | ⟨hnone, hgroup⟩
  · obtain ⟨before, o, after, hold, rfl, ho, hfirst⟩ := exists_of_modifyFirst?_eq_some huser
    exact ⟨before, o, _, after, hold, rfl, .user o ho, .inl ⟨ho, hfirst⟩⟩
  · obtain ⟨before, o, after, hold, rfl, ho, hfirst⟩ := exists_of_modifyFirst?_eq_some hgroup
    exact ⟨before, o, _, after, hold, rfl, .group o _ ho (b.fillsRecord_inGroup o),
      .inr ⟨eq_false_of_modifyFirst?_eq_none hnone, hfirst⟩⟩

theorem FillsRecord.mem_iff {ms ms' : List Member} (h : b.FillsRecord ms ms')
    (hvote : b.vote = .approve) :
    ⟨name, .approve⟩ ∈ ms' ↔ ⟨name, .approve⟩ ∈ ms ∨ name = b.principal.username := by
  cases h with
  | moved before after m hname hfirst =>
    simp only [List.mem_append, List.mem_cons, Member.mk.injEq, hvote, and_true]
    constructor
    · intro h
      rcases h with hbefore | rfl | hafter
      · exact .inl (.inl hbefore)
      · exact .inr rfl
      · exact .inl (.inr (.inr hafter))
    · intro h
      rcases h with (hbefore | rfl | hafter) | rfl
      · exact .inl hbefore
      · exact .inr (.inl hname)
      · exact .inr (.inr hafter)
      · exact .inr (.inl rfl)
  | added hnone => simp [hvote]

/-- An approval in a slot is one more for the voter, and none less for anybody. -/
theorem FillsSlot.approvedBy_iff (h : b.FillsSlot o n) (hvote : b.vote = .approve) :
    n.ApprovedBy name ↔ o.ApprovedBy name ∨ name = b.principal.username := by
  unfold Approver.ApprovedBy
  cases h with
  | user howner =>
    obtain ⟨hkind, hname⟩ := isUserEntry_iff.mp howner
    simp only [hkind, hname, hvote, true_and, and_true, reduceCtorEq, false_and, or_false]
    constructor
    · rintro rfl
      exact .inr rfl
    · rintro (⟨rfl, -⟩ | rfl)
      · rfl
      · rfl
  | group ms howner hrecord =>
    simp [(isOwnGroup_iff.mp howner).1, hrecord.mem_iff hvote]

theorem FillsSlot.rejects (h : b.FillsSlot o n) (hvote : b.vote = .reject) : n.rejects = true := by
  cases h <;> simp [Approver.rejects, hvote]

theorem Fills.approving_eq (h : b.Fills s s') (hvote : b.vote = .approve) :
    s'.tally.approving = s.tally.approving.insert b.principal.username := by
  refine NameSet.ext_mem fun name => ?_
  obtain ⟨before, o, n, after, hold, hnew, hslot, -⟩ := h.slot
  rw [NameSet.mem_insert, Spec.mem_approving_iff, Spec.mem_approving_iff, Spec.ApprovedBy,
    Spec.ApprovedBy, hold, hnew]
  simp only [List.mem_append, List.mem_cons, or_and_right, exists_or, exists_eq_left,
    hslot.approvedBy_iff hvote]
  constructor
  · rintro (hbefore | (hslot | hvoter) | hafter)
    · exact .inr (.inl hbefore)
    · exact .inr (.inr (.inl hslot))
    · exact .inl hvoter
    · exact .inr (.inr (.inr hafter))
  · rintro (hvoter | hbefore | hslot | hafter)
    · exact .inr (.inl (.inr hvoter))
    · exact .inl hbefore
    · exact .inr (.inl (.inl hslot))
    · exact .inr (.inr hafter)

theorem Fills.rejected_eq (h : b.Fills s s') (hvote : b.vote = .reject) :
    s'.tally.rejected = true := by
  obtain ⟨before, o, n, after, -, hnew, hslot, -⟩ := h.slot
  simp [Spec.tally, hnew, hslot.rejects hvote]

/-- The task `old`, but for its version, with the vote recorded in it. -/
structure Recorded (b : Ballot) (old t : Task) : Prop where
  kept : t = { old with spec := t.spec, metadata.version := t.metadata.version }
  filled : b.Fills old.spec t.spec
  approving_eq : b.vote = .approve →
    t.spec.tally.approving = old.spec.tally.approving.insert b.principal.username
  rejected_eq : b.vote = .reject → t.spec.tally.rejected = true

theorem Recorded.of_edit? {old t : Task} (hedit : b.edit? old.spec = some t.spec)
    (hkept : t = { old with spec := t.spec, metadata.version := t.metadata.version }) :
    b.Recorded old t :=
  have hfills := fills_of_edit? hedit
  ⟨hkept, hfills, hfills.approving_eq, hfills.rejected_eq⟩

/-- A vote that returns a task has stored it: the task that it replaced, a version later, with the
vote in the voter's slot and nothing else changed. An approval adds the voter to those who approve
and a rejection rejects the task.

Of a vote that is alone this holds with any store. There the version stands still once it is the
last one that 64 bits hold, and the vote is recorded all the same. Amid other writers it holds while
the version of the task can rise: at the last one, a write is no longer refused for a task that has
changed since it was read, so the vote may replace a task that it was not judged against. -/
theorem recorded_vote_counts (b : Ballot) (retries : Nat) :
    (∀ s s' t, b.cast retries s = (.ok t, s') →
      ∃ old, s.get? b.key = some old ∧ s' = s.put t ∧ s'.get? b.key = some t ∧
        b.Recorded old t ∧ t.metadata.version = Store.nextVersion old.metadata.version ∧
        (old.metadata.version < Bounds.nat64Max →
          t.metadata.version = old.metadata.version + 1)) ∧
    (∀ s w t landed, Traffic.Run (fun _ => True) Store.Write (.start s) w →
      w.store.HasRoom b.key → ⟨.vote b retries, .done (.ok t), landed⟩ ∈ w.clients →
      ∃ w₁ w₂ old, Traffic.Run (fun _ => True) Store.Write (.start s) w₁ ∧
        Traffic.Step (fun _ => True) Store.Write w₁ w₂ ∧
        Traffic.Run (fun _ => True) Store.Write w₂ w ∧ landed = [(w₁.store, w₂.store)] ∧
        w₁.store.get? b.key = some old ∧ w₂.store = w₁.store.put t ∧
        w₂.store.get? b.key = some t ∧ b.Recorded old t ∧
        t.metadata.version = old.metadata.version + 1) := by
  constructor
  · intro s s' t hcast
    obtain ⟨old, proposed, hold, hproposes, rfl, rfl⟩ := cast_eq_ok_iff.mp hcast
    have hrecorded : b.Recorded old (Store.edited old proposed) := by
      refine .of_edit? hproposes.edit ?_
      rw [Store.edited, hproposes.kept]
    have hkey : (Store.edited old proposed).key = b.key := by
      rw [Store.key_edited, hproposes.key_eq, Store.key_of_get? hold]
    refine ⟨old, hold, rfl, ?_, hrecorded, rfl, fun hroom => ?_⟩
    · rw [Store.get?_put, if_pos hkey.symm]
    · rw [Store.version_edited, Store.nextVersion]
      omega
  · intro s w t landed hrun hroom hclient
    have hstage : b.Stage retries w.store (.done (.ok t)) landed :=
      (hrun.staged (fun _ _ _ _ hwrite => hwrite.advances) _ hclient).2 hroom
    cases hstage with
    | @landed before after t hlands =>
      obtain ⟨old, spec, hold, hedit, -, rfl, hafter⟩ := hlands
      obtain ⟨w₁, w₂, hw₁, hstep, hw₂, rfl, rfl⟩ :=
        hrun.landed hclient (List.mem_singleton.mpr rfl)
      refine ⟨w₁, w₂, old, hw₁, hstep, hw₂, rfl, hold, hafter, ?_, .of_edit? hedit rfl, rfl⟩
      rw [hafter, Store.get?_put]
      exact if_pos (Store.key_of_get? hold).symm

/-- A gate that a user and a team have to open together, after some of the team voted. -/
def teamGate (version : Nat) (message : Option String) (members : List Member) : Task where
  metadata := { name := "gate", version }
  spec :=
    { approvers :=
        [.user "ann", { name := "team", kind := .group, vote := .approve, message, members }]
      required := 2 }

/-- The approval of somebody who is not on the team's record yet. -/
def joining : Ballot := ⟨"gate", ⟨"bob", ["team"]⟩, .approve, some "fine"⟩

theorem joining_authorized : authorize (teamGate 4 none [⟨"cid", .approve⟩])
    (teamGate 4 (some "fine") [⟨"cid", .approve⟩, ⟨"bob", .approve⟩]).spec joining.principal =
      .allow := by
  have hchanges : (teamGate 4 none [⟨"cid", .approve⟩]).spec.changesTo
      (teamGate 4 (some "fine") [⟨"cid", .approve⟩, ⟨"bob", .approve⟩]).spec =
        [.message ⟨.group, "team"⟩, .memberAdded "team" "bob" .approve] := by cbv
  refine Guard.authorize_eq_allow_iff.mpr
    (Guard.cleared_of_vote (.group "team") .approve hchanges ?_ ?_ ?_ ?_ ?_ ?_ ?_ ?_) <;>
    decide

theorem joining_proposes : joining.Proposes (teamGate 4 none [⟨"cid", .approve⟩])
    (teamGate 4 (some "fine") [⟨"cid", .approve⟩, ⟨"bob", .approve⟩]) :=
  ⟨rfl, rfl, Admission.update_allowed_of_authorized rfl rfl (by decide)
    joining_authorized⟩

/-- A member who joins the team with an approval counts beside the one who approved before. -/
theorem joining_member_counts :
    ∃ s s' t w landed, joining.cast 0 s = (.ok t, s') ∧
      Traffic.Run (fun _ => True) Store.Write (.start s) w ∧
      ⟨.vote joining 0, .done (.ok t), landed⟩ ∈ w.clients ∧ landed ≠ [] ∧
      t = teamGate 5 (some "fine") [⟨"cid", .approve⟩, ⟨"bob", .approve⟩] ∧
      t.spec.tally.approving.names = ["bob", "cid"] := by
  let old := teamGate 4 none [⟨"cid", .approve⟩]
  let new := teamGate 5 (some "fine") [⟨"cid", .approve⟩, ⟨"bob", .approve⟩]
  let s := Store.empty.put old
  have hcast : joining.cast 0 s = (.ok new, s.put new) := cast_of_proposes 0 rfl joining_proposes
  have hfinish : ∃ landed, Traffic.Run (fun _ => True) Store.Write
      ⟨s, [⟨.vote joining 0, joining.call 0, []⟩]⟩
      ⟨((joining.call 0).run s).2, [⟨.vote joining 0, .done ((joining.call 0).run s).1, landed⟩]⟩ :=
    Traffic.Run.finish (j := .vote joining 0) (joining.call 0) s [] []
  rw [joining.run_call 0, hcast] at hfinish
  obtain ⟨landed, hfinish⟩ := hfinish
  have hrun := hfinish.head (.arrive (.start s) (.vote joining 0) trivial)
  have hclient : ⟨.vote joining 0, .done (.ok new), landed⟩ ∈
      [(⟨.vote joining 0, .done (.ok new), landed⟩ : Client)] := List.mem_singleton.mpr rfl
  have hroom : (s.put new).HasRoom "gate" :=
    ((Store.hasRoom_empty "gate").put (by decide)).put (by decide)
  obtain ⟨halone, hamid⟩ := recorded_vote_counts joining 0
  obtain ⟨old', hold, -, -, hrecorded, -⟩ := halone s _ new hcast
  obtain ⟨w₁, w₂, -, -, -, -, hlanded, -⟩ := hamid s _ new landed hrun hroom hclient
  obtain rfl : old = old' := Option.some.inj hold
  refine ⟨s, _, new, _, landed, hcast, hrun, hclient, by simp [hlanded], rfl, ?_⟩
  rw [hrecorded.approving_eq rfl]
  rfl

end Ballot
end Quorum
