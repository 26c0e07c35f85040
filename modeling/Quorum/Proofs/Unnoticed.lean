import Mathlib.Data.Set.Function
import Quorum.Proofs.Accounts
import Quorum.Proofs.Reordering
import Quorum.Proofs.Rightful

/-!
# Skipping the count goes unnoticed

A pass that always counts the votes of an open task (`Pass.recounting`) is what a pass would be
without digests. The two agree on the status they leave, after any run of votes and passes
(`Traffic.skipping_is_invisible`): the status of an open task is the count of a list that has the
digest on record (`Task.Counted`), and a list of that digest has that count, as long as the hash
tells apart what the lists of the run are encoded by.

Votes are encoded by their text. A caller who hands in the text of an approval as an unknown value
has it admitted for the approval, stored for the unknown value and encoded like the approval, so
that two lists with different counts have one digest. A count is then skipped that would have
changed the status (`Traffic.misspelled_vote_is_skipped`), and runs with such values in a list are
left out of the result.
-/
namespace Quorum

namespace Pass

/-- Counts the votes whatever the digest on record. A pass that does so is what every pass is
measured against. -/
def recount (t : Task) : Task × Bool :=
  ({ t with status := t.spec.aggregate (some t.status) }.withDigest
    (.ofApprovers t.spec.approvers), true)

/-- One pass over the task at `key` that counts the votes, unless the task is final. -/
def recounting (key : String) (now : Instant) (limit : Span) :
    StateM Store (Except StoreError Report) := fun s =>
  match s.get key with
  | .error e => (.error e, s)
  | .ok t =>
    let p := planBy recount t now limit
    if p.changed then
      match writeStatus p.task s with
      | (.error e, s') => (.error e, s')
      | (.ok _, s') => (.ok (p.report now limit), s')
    else (.ok (p.report now limit), s)

variable {c c' : Task → Task × Bool} {t u : Task} {start now : Instant} {limit : Span} {s : Store}
  {key : String}

theorem keeps_recount (t : Task) : Keeps t (recount t).1 := ⟨_, _, rfl⟩

theorem count_eq_recount (h : t.digest? ≠ some (.ofApprovers t.spec.approvers)) :
    count t = recount t := count_of_digest_ne h

/-- An open task whose approvers have another digest than the one on record is counted. -/
theorem plan_status_of_digest_ne (hopen : t.status.state.isFinal = false)
    (hdigest : t.digest? ≠ some (.ofApprovers t.spec.approvers)) :
    (plan t now limit).task.status =
      (expire (recount (withStart t now)).1 (startOf t now) now limit).1.status := by
  have hstarted : (withStart t now).digest? ≠
      some (.ofApprovers (withStart t now).spec.approvers) := hdigest
  rw [plan_task, if_neg (by simp [hopen]), count_eq_recount hstarted]

/-- A final task that has its start is all that such a pass leaves alone. -/
theorem recount_task_of_unchanged (h : (planBy recount t now limit).changed = false) :
    (planBy recount t now limit).task = t := by
  unfold planBy at h ⊢
  by_cases hfinal : (withStart t now).status.state.isFinal = true
  · simp only [hfinal, if_true] at h ⊢
    exact withStart_of_started h
  · simp [hfinal, recount] at h

/-- The pass leaves the status that it plans. -/
theorem recounting_of_stored (now : Instant) (limit : Span) (ht : s.get? key = some t) :
    ∃ report s' u, recounting key now limit s = (.ok report, s') ∧ s'.get? key = some u ∧
      u.status = (planBy recount t now limit).task.status := by
  let p := planBy recount t now limit
  have hkey := Store.key_of_get? ht
  have hkeeps : Keeps t p.task := keeps_planBy keeps_recount t now limit
  have hget := Store.get_eq_ok_iff.mpr ht
  cases hchanged : p.changed with
  | true =>
    let u := Store.reported t p.task
    have hwrite : s.updateStatus p.task = .ok (u, s.put u) := by
      refine Store.updateStatus_eq_ok_iff.mpr ⟨t, ?_, hkeeps.version_eq, rfl, rfl⟩
      rw [hkeeps.key_eq, hkey, ht]
    refine ⟨p.report now limit, s.put u, u, ?_, ?_, rfl⟩
    · simp only [recounting, hget, p, hchanged, if_true, writeStatus, hwrite]
    · rw [Store.get?_put, if_pos]
      rw [Store.key_reported, hkey]
  | false =>
    refine ⟨p.report now limit, s, t, ?_, ht, ?_⟩
    · simp only [recounting, hget, p, hchanged, Bool.false_eq_true, if_false]
    · rw [recount_task_of_unchanged hchanged]

/-- Whether a task expires, and what becomes of its status, is up to its status and name. -/
theorem expire_status_congr (hstatus : t.status = u.status)
    (hname : t.metadata.name = u.metadata.name) :
    (expire t start now limit).1.status = (expire u start now limit).1.status := by
  unfold expire
  rw [hstatus, hname]
  split
  · rfl
  · exact hstatus

/-- Passes that count alike plan alike, apart from the digest that the count leaves in the
annotations. -/
theorem planBy_status_congr (hc : ∀ u, Keeps u (c u).1) (hc' : ∀ u, Keeps u (c' u).1)
    (h : t.status.state.isFinal = false →
      (c (withStart t now)).1.status = (c' (withStart t now)).1.status) :
    (planBy c t now limit).task.status = (planBy c' t now limit).task.status := by
  rw [planBy_task, planBy_task]
  cases hfinal : t.status.state.isFinal with
  | true => rfl
  | false =>
    simp only [Bool.false_eq_true, if_false]
    exact expire_status_congr (h hfinal) ((hc _).name_eq.trans (hc' _).name_eq.symm)

end Pass

namespace Spec
variable {s : Spec}

theorem WellFormed.orderly (h : s.WellFormed) : s.Orderly where
  approvers_distinct := h.approvers_distinct
  members_distinct _ := h.members_distinct
  legible := h.legible

/-- A vote doubles no approver and no member, so lists that start out orderly stay so. -/
theorem Orderly.markAt (h : s.Orderly) {b : Ballot} {o : Approver} (hslot : b.slot? s = some o)
    (hlegible : (b.markAt s o).Legible) : (b.markAt s o).Orderly := by
  obtain ⟨ho, -⟩ := Ballot.own_of_slot? hslot
  refine ⟨by rw [Ballot.keys_markAt]; exact h.approvers_distinct, fun n hn => ?_, hlegible⟩
  rcases (Ballot.mem_markAt_iff ho).mp hn with rfl | ⟨hn, -⟩
  · exact Ballot.members_mark_distinct (h.members_distinct o ho)
  · exact h.members_distinct n hn

end Spec

/-- The task has one of `lists`, and while it is open its status is the count of one of them, the
one that has the digest on record. -/
structure Task.Counted (lists : Set (List Approver)) (t : Task) : Prop where
  orderly : t.spec.Orderly
  listed : t.spec.approvers ∈ lists
  counted : t.status.state.isFinal = false → ∃ s : Spec, s.Orderly ∧
    s.required = t.spec.required ∧ s.approvers ∈ lists ∧
    t.digest? = some (.ofApprovers s.approvers) ∧ t.status = s.freshStatus t.status.startTime

section
variable {lists : Set (List Approver)} {t u : Task} {start now : Instant} {limit : Span}

namespace Task.Counted

theorem of_eq (h : t.Counted lists) (hspec : u.spec = t.spec) (hstatus : u.status = t.status)
    (hdigest : u.digest? = t.digest?) : u.Counted lists := by
  refine ⟨hspec ▸ h.orderly, hspec ▸ h.listed, ?_⟩
  rw [hspec, hstatus, hdigest]
  exact h.counted

/-- A status that was counted from a list with the digest of this one is the count of this one. -/
theorem status_eq (h : t.Counted lists) (hfits : ∀ as ∈ lists, Digest.Encoding.ListFits as)
    (hinj : Set.InjOn Digest.hash (Digest.Encoding.list '' lists))
    (hopen : t.status.state.isFinal = false)
    (hdigest : t.digest? = some (.ofApprovers t.spec.approvers)) :
    t.status = t.spec.freshStatus t.status.startTime := by
  obtain ⟨s, horderly, hrequired, hlisted, hrecorded, hstatus⟩ := h.counted hopen
  have hhash : Digest.hash (Digest.Encoding.list s.approvers) =
      Digest.hash (Digest.Encoding.list t.spec.approvers) :=
    Option.some.inj (hrecorded.symm.trans hdigest)
  have hencoded := hinj (Set.mem_image_of_mem _ hlisted) (Set.mem_image_of_mem _ h.listed) hhash
  have hmatching :=
    Digest.Encoding.matching_of_list_eq (hfits _ hlisted) (hfits _ h.listed) hencoded
  exact hstatus.trans (Spec.freshStatus_congr hmatching hrequired horderly h.orderly _)

end Task.Counted

namespace Pass

theorem counted_withStart (h : t.Counted lists) : (withStart t now).Counted lists := by
  refine ⟨h.orderly, h.listed, fun hopen => ?_⟩
  obtain ⟨s, horderly, hrequired, hlisted, hrecorded, hstatus⟩ := h.counted hopen
  refine ⟨s, horderly, hrequired, hlisted, hrecorded, ?_⟩
  change { t.status with startTime := some (startOf t now) } = s.freshStatus (some (startOf t now))
  rw [hstatus]
  rfl

theorem counted_count (h : t.Counted lists) : (count t).1.Counted lists := by
  by_cases hdigest : t.digest? = some (.ofApprovers t.spec.approvers)
  · rw [count_of_digest hdigest]
    exact h
  · rw [count_of_digest_ne hdigest]
    refine ⟨h.orderly, h.listed, fun hopen =>
      ⟨t.spec, h.orderly, rfl, h.listed, Task.digest?_withDigest _ _, ?_⟩⟩
    change t.spec.aggregate (some t.status) =
      t.spec.freshStatus (t.spec.aggregate (some t.status)).startTime
    change (t.spec.aggregate (some t.status)).state.isFinal = false at hopen
    by_cases hfinal : t.status.state.isFinal = true
    · simp [Spec.aggregate, hfinal] at hopen
    · simp only [Spec.aggregate, hfinal, Bool.false_eq_true, if_false]
      rfl

theorem counted_expire (h : t.Counted lists) : (expire t start now limit).1.Counted lists := by
  unfold expire
  split
  · exact ⟨h.orderly, h.listed, fun hopen => by cases hopen⟩
  · exact h

theorem counted_plan (h : t.Counted lists) : (plan t now limit).task.Counted lists := by
  rw [plan_task]
  by_cases hfinal : t.status.state.isFinal = true
  · rw [if_pos hfinal]
    exact counted_withStart h
  · rw [if_neg hfinal]
    exact counted_expire (counted_count (counted_withStart h))

/-- The count that is skipped would have changed nothing. -/
theorem count_status_eq_recount (h : t.Counted lists)
    (hfits : ∀ as ∈ lists, Digest.Encoding.ListFits as)
    (hinj : Set.InjOn Digest.hash (Digest.Encoding.list '' lists))
    (hopen : t.status.state.isFinal = false) : (count t).1.status = (recount t).1.status := by
  by_cases hdigest : t.digest? = some (.ofApprovers t.spec.approvers)
  · have hrecount : (recount t).1.status = t.spec.freshStatus t.status.startTime := by
      simp only [recount, Task.withDigest, Spec.aggregate, hopen, Bool.false_eq_true, if_false]
    rw [count_of_digest hdigest, hrecount]
    exact h.status_eq hfits hinj hopen hdigest
  · rw [count_eq_recount hdigest]

theorem plan_status_eq_recount (h : t.Counted lists)
    (hfits : ∀ as ∈ lists, Digest.Encoding.ListFits as)
    (hinj : Set.InjOn Digest.hash (Digest.Encoding.list '' lists)) :
    (plan t now limit).task.status = (planBy recount t now limit).task.status :=
  planBy_status_congr keeps_count keeps_recount fun hopen =>
    count_status_eq_recount (counted_withStart h) hfits hinj hopen

end Pass
end

/-- The task at `key` has one of `lists`. -/
def Store.ListedAt (key : String) (lists : Set (List Approver)) (s : Store) : Prop :=
  s.Holds key fun t => t.spec.approvers ∈ lists

theorem TaskParams.counted_task {p : TaskParams} {lists : Set (List Approver)} {name : String}
    {now : Instant} (hvalid : p.spec.WellFormed) (hpending : p.spec.AllPending)
    (hlisted : p.approvers ∈ lists) (version : Nat) :
    ({ p.task name now with metadata.version := version } : Task).Counted lists := by
  refine ⟨hvalid.orderly, hlisted, fun _ => ⟨p.spec, hvalid.orderly, rfl, hlisted, ?_, ?_⟩⟩
  · exact Task.digest?_withDigest _ _
  · exact hpending.freshStatus_eq.symm

namespace Traffic
variable {lists : Set (List Approver)} {key : String} {s : Store} {w w' : Traffic}

/-- Votes on the task at `key`, whatever their value, and passes over it. -/
def VoteOrPass (key : String) (j : Job) : Prop := j.key = key

/-- Whatever others do that leaves the task at `key` alone. -/
def Elsewhere (key : String) (s s' : Store) : Prop := s'.get? key = s.get? key

/-- A vote leaves the status and the digest, and they still go with the list that was counted. -/
theorem VoteOrPass.counted {j : Job} {s s' : Store} (hj : VoteOrPass key j)
    (hlegible : ∀ as ∈ lists, ∀ a ∈ as, a.Legible) (hlands : j.Lands s s')
    (hlisted : s'.ListedAt key lists) (hs : s.Holds key (Task.Counted lists)) :
    s'.Holds key (Task.Counted lists) := by
  cases j with
  | vote b retries =>
    obtain rfl : b.key = key := hj
    obtain ⟨t, cur, spec, hcur, hedit, -, rfl, rfl⟩ := hlands
    have hcounted := hs cur hcur
    rw [Ballot.edit?_eq hcounted.orderly.approvers_distinct, Option.map_eq_some_iff] at hedit
    obtain ⟨o, hslot, rfl⟩ := hedit
    refine hs.put fun hkey => ?_
    have hmem := hlisted _ ((Store.get?_put ..).trans (if_pos hkey))
    exact ⟨hcounted.orderly.markAt hslot (hlegible _ hmem), hmem, hcounted.counted⟩
  | pass k now limit =>
    obtain rfl : k = key := hj
    obtain ⟨t, cur, hcur, -, rfl, rfl⟩ := hlands
    have hplan : (Pass.plan cur now limit).task.Counted lists := Pass.counted_plan (hs cur hcur)
    exact hs.put fun _ => hplan.of_eq (Pass.keeps_plan cur now limit).spec_eq.symm rfl rfl

theorem RunThrough.counted
    (h : RunThrough (Store.ListedAt key lists) (VoteOrPass key) (Elsewhere key) (start s) w)
    (hlegible : ∀ as ∈ lists, ∀ a ∈ as, a.Legible)
    (hs : s.Holds key (Task.Counted lists)) (hroom : w.store.HasRoom key) :
    w.store.Holds key (Task.Counted lists) := by
  refine h.preserves (P := Store.Holds key (Task.Counted lists)) (fun j hj => hj) hroom
    (fun s s' hsame => .of_get?_eq hsame)
    (fun j s s' hj hlands hlisted hs => VoteOrPass.counted hj hlegible hlands hlisted hs)
    (fun s s' hsame hs => hs.of_get?_eq hsame) hs

/-- After any votes and passes on a new task, a pass that ends well leaves the status that a pass
would leave which always counts. `lists` are the approver lists that the task has had. None of them
holds a text that stands for a vote without being that vote, and the hash tells their octets apart.
-/
theorem skipping_is_invisible {p : TaskParams} {name : String} {created now : Instant}
    {limit : Span} {report : Pass.Report} {t₀ t₁ : Task} {s₀ : Store}
    (hbuilt : p.toTask name created = .ok t₀) (hcreated : s.create t₀ = .ok (t₁, s₀))
    (hlisted : p.approvers ∈ lists)
    (hrun : RunThrough (Store.ListedAt t₀.key lists) (VoteOrPass t₀.key) (Elsewhere t₀.key)
      (start s₀) w)
    (hlegible : ∀ as ∈ lists, ∀ a ∈ as, a.Legible)
    (hfits : ∀ as ∈ lists, Digest.Encoding.ListFits as)
    (hinj : Set.InjOn Digest.hash (Digest.Encoding.list '' lists))
    (hroom : w.store.HasRoom t₀.key) (hends : PassEnds t₀.key now limit report w w') :
    ∃ t' report' s' u, w'.store.get? t₀.key = some t' ∧
      Pass.recounting t₀.key now limit w.store = (.ok report', s') ∧
      s'.get? t₀.key = some u ∧ t'.status = u.status := by
  have hstart : s₀.Holds t₀.key (Task.Counted lists) :=
    Store.holds_of_built hbuilt hcreated fun hvalid hpending =>
      TaskParams.counted_task hvalid hpending hlisted 1
  obtain ⟨t, t', ht, ht', -, -, hstatus⟩ := hends.planned hrun.run
    (fun j hj s s' hsame => (show j.key = t₀.key from hj) ▸ .of_get?_eq hsame) hroom
  have hcounted : t.Counted lists := hrun.counted hlegible hstart hroom t ht
  obtain ⟨report', s', u, hpass, hu, hrecounted⟩ := Pass.recounting_of_stored now limit ht
  refine ⟨t', report', s', u, ht', hpass, hu, ?_⟩
  rw [hstatus, hrecounted, Pass.plan_status_eq_recount hcounted hfits hinj]

/-- The sole user's entry with a vote and a message. -/
def entryOf (vote : Vote) (message : Option String) : Approver :=
  { Approver.user "ann" with vote, message }

/-- The lists that the sole user's task has, before and after the user's approval. -/
def soleLists : Set (List Approver) :=
  {(soleSpec .pending).approvers, (soleSpec .approve).approvers}

theorem soleLists_legible : ∀ as ∈ soleLists, ∀ a ∈ as, a.Legible := by
  rintro as (rfl | rfl) a ha
  · obtain rfl := List.mem_singleton.mp ha
    exact ⟨rfl, rfl, fun m hm => absurd hm List.not_mem_nil⟩
  · obtain rfl := List.mem_singleton.mp ha
    exact ⟨rfl, rfl, fun m hm => absurd hm List.not_mem_nil⟩

/-- The user's approval, and the task that it proposes. -/
def soleBallot : Ballot := ⟨"gate", ⟨"ann", []⟩, .approve, none⟩

def soleProposal : Task := { soleTask with spec := soleSpec .approve }

theorem soleBallot_proposes : soleBallot.Proposes soleTask soleProposal :=
  ⟨rfl, rfl, Admission.update_allowed_of_authorized rfl rfl (by decide)
    soleApproval_authorized⟩

/-- The task with the user's approval, as it is stored. -/
def soleVoted : Task := Store.edited soleTask soleProposal

-- The gate of the same user that takes two approvals stays open whatever the user approves.
namespace Held

def waiting : Approver := entryOf .pending none

/-- A vote that is the text of an approval, as a caller may give it who does not read it from
text. -/
def misspelled : Approver := entryOf (.other "approve") (some "m")

def reworded : Approver := entryOf .approve (some "n")

/-- The approval that is written like `misspelled`. -/
def respelled : Approver := entryOf .approve (some "m")

def entries : List Approver := [waiting, misspelled, reworded, respelled]

/-- The approver lists that the gate has in turn. -/
def approverLists : Set (List Approver) := {as | ∃ a ∈ entries, as = [a]}

/-- Two approvals are required and only ann is asked, so the task stays open however often she
approves. -/
def params : TaskParams := { approvers := [.user "ann"], required := 2 }

def spec (a : Approver) : Spec := ⟨[a], 2, none⟩

/-- A status that has counted nothing yet, with or without a start. -/
def status (startTime : Option Instant) : Status := ⟨.pending, ["ann"], [], 2, 0, startTime, none⟩

/-- The gate with the entry `a`, nothing received, and the digest of the entry `counted` on
record. -/
def taskAt (version : Nat) (startTime : Option Instant) (counted a : Approver) : Task :=
  Task.withDigest ⟨{ (params.task "gate" Draft.epoch).metadata with version }, spec a,
    status startTime⟩ (.ofApprovers [counted])

def ballot (vote : Vote) (message : String) : Ballot :=
  ⟨"gate", ⟨"ann", []⟩, vote, some message⟩

theorem encoding_misspelled :
    Digest.Encoding.list [misspelled] = Digest.Encoding.list [respelled] := rfl

/-- The three votes are admitted in turn. The first is reviewed as the approval that it is written
like, and so is the entry that the second one finds. -/
theorem proposals :
    (ballot (.other "approve") "m").Proposes (taskAt 1 none waiting waiting)
        (taskAt 1 none waiting misspelled) ∧
      (ballot .approve "n").Proposes (taskAt 3 (some Draft.epoch) misspelled misspelled)
        (taskAt 3 (some Draft.epoch) misspelled reworded) ∧
      (ballot .approve "m").Proposes (taskAt 4 (some Draft.epoch) misspelled reworded)
        (taskAt 4 (some Draft.epoch) misspelled respelled) := by
  have hvoting : authorize (taskAt 1 none waiting waiting) (spec respelled) ⟨"ann", []⟩ =
      .allow := by decide +kernel
  have hrewording : authorize (taskAt 3 (some Draft.epoch) misspelled respelled) (spec reworded)
      ⟨"ann", []⟩ = .allow := by decide +kernel
  have hrespelling : authorize (taskAt 4 (some Draft.epoch) misspelled reworded) (spec respelled)
      ⟨"ann", []⟩ = .allow := by decide +kernel
  have hvalid : (spec respelled).problems = [] ∧ (spec reworded).problems = [] := by
    decide
  have hfirst : (Admission.respond (.update ⟨"ann", []⟩ (taskAt 1 none waiting respelled)
      (taskAt 1 none waiting waiting))).allowed = true :=
    Admission.update_allowed_of_authorized rfl rfl hvalid.1 hvoting
  have hsecond : (Admission.respond (.update ⟨"ann", []⟩
      (taskAt 3 (some Draft.epoch) misspelled reworded)
      (taskAt 3 (some Draft.epoch) misspelled respelled))).allowed = true :=
    Admission.update_allowed_of_authorized rfl rfl hvalid.2 hrewording
  have hthird : (Admission.respond (.update ⟨"ann", []⟩
      (taskAt 4 (some Draft.epoch) misspelled respelled)
      (taskAt 4 (some Draft.epoch) misspelled reworded))).allowed = true :=
    Admission.update_allowed_of_authorized rfl rfl hvalid.1 hrespelling
  exact ⟨⟨rfl, rfl, hfirst⟩, ⟨rfl, rfl, hsecond⟩, ⟨rfl, rfl, hthird⟩⟩

/-- The unknown value counts for nothing, so the status stays as it was. -/
theorem aggregate_misspelled : (spec misspelled).aggregate (some (status (some Draft.epoch))) =
    status (some Draft.epoch) := by
  have hnone : (spec misspelled).responses = [] := by
    simp [Spec.responses, spec, misspelled, entryOf, Approver.user, Approver.hasDecision,
      Vote.isDecided]
  rw [Spec.aggregate_of_open (by simp [status, Outcome.isFinal]), Spec.freshStatus, hnone]
  rfl

end Held

/-- The entries of the two runs, one for each text that is written of them. -/
def spelledEntries : List Approver :=
  [entryOf .pending none, entryOf .approve none, Held.reworded, Held.respelled]

theorem entries_fit : ∀ a ∈ Held.misspelled :: spelledEntries, Digest.Encoding.ListFits [a] := by
  decide +kernel

theorem spelledDigests_nodup :
    (spelledEntries.map fun a => Digest.ofApprovers [a]).Nodup := by decide +kernel

theorem digest_ne {a b : Approver} (ha : a ∈ spelledEntries) (hb : b ∈ spelledEntries)
    (hne : a ≠ b) : Digest.ofApprovers [a] ≠ Digest.ofApprovers [b] := fun h =>
  hne (List.inj_on_of_nodup_map spelledDigests_nodup ha hb h)

/-- The hash tells the lists of the runs apart as far as their octets differ. -/
theorem hash_injOn_of_spelled (h : ∀ as ∈ lists, ∃ a ∈ spelledEntries,
    Digest.Encoding.list as = Digest.Encoding.list [a]) :
    Set.InjOn Digest.hash (Digest.Encoding.list '' lists) := by
  rintro _ ⟨as, has, rfl⟩ _ ⟨bs, hbs, rfl⟩ hhash
  obtain ⟨a, ha, hencoded⟩ := h as has
  obtain ⟨b, hb, hencoded'⟩ := h bs hbs
  rw [hencoded, hencoded'] at hhash ⊢
  rw [List.inj_on_of_nodup_map spelledDigests_nodup ha hb hhash]

theorem soleLists_fit : ∀ as ∈ soleLists, Digest.Encoding.ListFits as := by
  rintro as (rfl | rfl)
  · exact entries_fit (entryOf .pending none) (by decide)
  · exact entries_fit (entryOf .approve none) (by decide)

theorem hash_injOn_soleLists : Set.InjOn Digest.hash (Digest.Encoding.list '' soleLists) := by
  refine hash_injOn_of_spelled ?_
  rintro as (rfl | rfl)
  · exact ⟨entryOf .pending none, by decide, rfl⟩
  · exact ⟨entryOf .approve none, by decide, rfl⟩

/-- The digest on record is that of the list before the vote, so a pass counts. -/
theorem plan_soleVoted :
    (Pass.plan soleVoted Draft.epoch .zero).task.status.state = .approved := by
  have hrecorded : soleVoted.digest? = some (.ofApprovers (soleSpec .pending).approvers) :=
    Task.digest?_withDigest ..
  have hne : Digest.ofApprovers (soleSpec .pending).approvers ≠
      Digest.ofApprovers (soleSpec .approve).approvers :=
    digest_ne (a := entryOf .pending none) (b := entryOf .approve none) (by decide) (by decide)
      (by decide)
  have hdigest : soleVoted.digest? ≠ some (.ofApprovers soleVoted.spec.approvers) := fun h =>
    hne (Option.some.inj (hrecorded.symm.trans h))
  rw [Pass.plan_status_of_digest_ne rfl hdigest]
  rfl

/-- The user approves, and the pass that counts the approval does what one would do that always
counts. -/
theorem counting_approval_is_invisible :
    ∃ w w' report t, RunThrough (Store.ListedAt "gate" soleLists) (VoteOrPass "gate")
        (Elsewhere "gate") (start (Store.empty.put soleTask)) w ∧
      PassEnds "gate" Draft.epoch .zero report w w' ∧ w'.store.get? "gate" = some t ∧
      t.status.state = .approved ∧
      ∃ report' s' u, Pass.recounting "gate" Draft.epoch .zero w.store = (.ok report', s') ∧
        s'.get? "gate" = some u ∧ t.status = u.status := by
  let s₁ := Store.empty.put soleTask
  let s₂ := s₁.put soleVoted
  let counted := Store.reported soleVoted (Pass.plan soleVoted Draft.epoch .zero).task
  have hstored : s₁.get? "gate" = some soleTask := rfl
  have hvoted : s₂.get? "gate" = some soleVoted :=
    (Store.get?_put s₁ soleVoted "gate").trans (if_pos rfl)
  have hvoting : VoteOrPass "gate" (.vote soleBallot 0) := rfl
  obtain ⟨w₁, hvote, hw₁⟩ :=
    RunThrough.vote_alone (w := start s₁) (Elsewhere "gate") hvoting hstored soleBallot_proposes
  have hread : w₁.store.get? "gate" = some soleVoted := by
    rw [hw₁]
    exact hvoted
  have hpassing : VoteOrPass "gate" (.pass "gate" Draft.epoch .zero) := rfl
  obtain ⟨w, w', report, hpass, hw, hends, hw'⟩ := RunThrough.pass_ends_alone (w := w₁)
    (Elsewhere "gate") hpassing hread (Pass.changed_of_unstarted rfl)
  have hbefore : s₁.ListedAt "gate" soleLists := .of_get? hstored (.inl rfl)
  have hafter : s₂.ListedAt "gate" soleLists := .of_get? hvoted (.inr rfl)
  have hrun : RunThrough (Store.ListedAt "gate" soleLists) (VoteOrPass "gate") (Elsewhere "gate")
      (start s₁) w := by
    refine (hvote.weaken ?_).trans (hpass.weaken ?_)
    · rintro s (rfl | rfl)
      · exact hbefore
      · exact hafter
    · rintro s rfl
      exact hw₁ ▸ hafter
  have hroom : w.store.HasRoom "gate" := by
    rw [hw, hw₁]
    intro t ht
    obtain rfl := Option.some.inj (hvoted.symm.trans ht)
    decide
  have hcounted : w'.store.get? "gate" = some counted := by
    rw [hw', Store.get?_put]
    exact if_pos rfl
  have happroved : counted.status.state = .approved := by
    rw [Store.status_reported, plan_soleVoted]
  obtain ⟨t, report', s', u, ht, hrecounting, hu, hstatus⟩ := skipping_is_invisible
    soleParams_toTask create_soleTask (.inl rfl) hrun soleLists_legible soleLists_fit
    hash_injOn_soleLists hroom hends
  obtain rfl := Option.some.inj (hcounted.symm.trans ht)
  exact ⟨w, w', report, counted, hrun, hends, hcounted, happroved, report', s', u, hrecounting, hu,
    hstatus⟩

namespace Held

theorem digest_misspelled : Digest.ofApprovers [misspelled] = Digest.ofApprovers [respelled] :=
  congrArg Digest.hash encoding_misspelled

theorem digest_misspelled_ne : Digest.ofApprovers [waiting] ≠ Digest.ofApprovers [misspelled] := by
  rw [digest_misspelled]
  exact digest_ne (by decide) (by decide) (by decide)

/-- What is written of an entry is written of one of `spelledEntries`. -/
theorem exists_spelled {a : Approver} (ha : a ∈ entries) : ∃ b ∈ spelledEntries,
    Digest.Encoding.list [a] = Digest.Encoding.list [b] := by
  simp only [entries, List.mem_cons, List.not_mem_nil, or_false] at ha
  rcases ha with rfl | rfl | rfl | rfl
  · exact ⟨waiting, by decide, rfl⟩
  · exact ⟨respelled, by decide, encoding_misspelled⟩
  · exact ⟨reworded, by decide, rfl⟩
  · exact ⟨respelled, by decide, rfl⟩

theorem approverLists_fit : ∀ as ∈ approverLists, Digest.Encoding.ListFits as := by
  have hsubset : ∀ a ∈ entries, a ∈ misspelled :: spelledEntries := by decide
  rintro _ ⟨a, ha, rfl⟩
  exact entries_fit a (hsubset a ha)

theorem hash_injOn_approverLists :
    Set.InjOn Digest.hash (Digest.Encoding.list '' approverLists) := by
  refine hash_injOn_of_spelled ?_
  rintro _ ⟨a, ha, rfl⟩
  exact exists_spelled ha

theorem digest?_taskAt (version : Nat) (startTime : Option Instant) (counted a : Approver) :
    (taskAt version startTime counted a).digest? = some (.ofApprovers [counted]) :=
  Task.digest?_withDigest ..

/-- The first pass finds another digest on record, counts no vote and records the new digest. -/
theorem reported_misspelled :
    Store.reported (taskAt 2 none waiting misspelled)
      (Pass.plan (taskAt 2 none waiting misspelled) Draft.epoch .zero).task =
    taskAt 3 (some Draft.epoch) misspelled misspelled := by
  have hdigest : (Pass.withStart (taskAt 2 none waiting misspelled) Draft.epoch).digest? ≠
      some (.ofApprovers [misspelled]) := fun h => digest_misspelled_ne
    (Option.some.inj ((digest?_taskAt 2 none waiting misspelled).symm.trans h))
  rw [Pass.plan_task, if_neg nofun, Pass.count_of_digest_ne hdigest]
  change Store.reported _ (Pass.expire (Task.withDigest
    { Pass.withStart (taskAt 2 none waiting misspelled) Draft.epoch with
      status := (spec misspelled).aggregate (some (status (some Draft.epoch))) } _) _ _ _).1 = _
  rw [aggregate_misspelled]
  rfl

/-- The last pass finds the digest of the list that it would count. -/
theorem plan_respelled :
    (Pass.plan (taskAt 5 (some Draft.epoch) misspelled respelled) Draft.epoch .zero).changed =
      false := by
  have hrecorded := digest?_taskAt 5 (some Draft.epoch) misspelled respelled
  rw [digest_misspelled] at hrecorded
  rw [Pass.changed_of_digest rfl rfl hrecorded]
  rfl

theorem recount_respelled :
    (Pass.planBy Pass.recount (taskAt 5 (some Draft.epoch) misspelled respelled) Draft.epoch
      .zero).task.status.received = 1 := by
  rw [Pass.planBy_task, if_neg nofun]
  rfl

theorem create_task : Store.empty.create (params.task "gate" Draft.epoch) =
    .ok (taskAt 1 none waiting waiting, Store.empty.put (taskAt 1 none waiting waiting)) := rfl

variable {w : Traffic}

theorem listedAt {version : Nat} {startTime : Option Instant} {counted a : Approver} {s : Store}
    (ha : a ∈ entries) (hs : s.get? "gate" = some (taskAt version startTime counted a)) :
    s.ListedAt "gate" approverLists := .of_get? hs ⟨a, ha, rfl⟩

/-- One of the votes, cast while nobody else writes. -/
theorem votes {version : Nat} {startTime : Option Instant} {counted a a' : Approver} {b : Ballot}
    (hw : w.store.get? "gate" = some (taskAt version startTime counted a)) (hkey : b.key = "gate")
    (hproposes : b.Proposes (taskAt version startTime counted a)
      (taskAt version startTime counted a'))
    (hversion : Store.nextVersion version = version + 1) (ha : a ∈ entries) (ha' : a' ∈ entries) :
    ∃ w', RunThrough (Store.ListedAt "gate" approverLists) (VoteOrPass "gate") (Elsewhere "gate")
        w w' ∧
      w'.store.get? "gate" = some (taskAt (version + 1) startTime counted a') := by
  obtain ⟨w', hrun, hw'⟩ := RunThrough.vote_alone (Elsewhere "gate")
    (show VoteOrPass "gate" (.vote b 0) from hkey) (hkey ▸ hw) hproposes
  have hedited : Store.edited (taskAt version startTime counted a)
      (taskAt version startTime counted a') = taskAt (version + 1) startTime counted a' := by
    rw [← hversion]
    rfl
  have hread : w'.store.get? "gate" = some (taskAt (version + 1) startTime counted a') := by
    rw [hw', hedited, Store.get?_put]
    exact if_pos rfl
  refine ⟨w', hrun.weaken ?_, hread⟩
  rintro s (rfl | rfl)
  · exact listedAt ha hw
  · exact hw' ▸ listedAt ha' hread

end Held

open Held in
/-- The user votes with the text of an approval, which counts for nothing, and a pass records the
digest of the list. Two approvals later the list has that digest again, so a pass skips the approval
that one would receive which always counts. -/
theorem misspelled_vote_is_skipped :
    ∃ t₀ s₀ w w' report t, params.toTask "gate" Draft.epoch = .ok t₀ ∧
      Store.empty.create t₀ = .ok (taskAt 1 none waiting waiting, s₀) ∧
      RunThrough (Store.ListedAt "gate" approverLists) (VoteOrPass "gate") (Elsewhere "gate")
        (start s₀) w ∧
      (∀ as ∈ approverLists, Digest.Encoding.ListFits as) ∧
      Set.InjOn Digest.hash (Digest.Encoding.list '' approverLists) ∧ w.store.HasRoom "gate" ∧
      PassEnds "gate" Draft.epoch .zero report w w' ∧ w'.store.get? "gate" = some t ∧
      t.status.received = 0 ∧
      ∃ report' s' u, Pass.recounting "gate" Draft.epoch .zero w.store = (.ok report', s') ∧
        s'.get? "gate" = some u ∧ u.status.received = 1 := by
  have hpassing : VoteOrPass "gate" (.pass "gate" Draft.epoch .zero) := rfl
  let s₀ := Store.empty.put (taskAt 1 none waiting waiting)
  obtain ⟨w₁, hvote₁, hw₁⟩ :=
    votes (w := start s₀) rfl rfl proposals.1 rfl (by decide) (by decide)
  obtain ⟨w₂, w₃, _, hpass, hw₂, hcounts, hw₃⟩ := RunThrough.pass_ends_alone (Elsewhere "gate")
    hpassing hw₁ (Pass.changed_of_unstarted rfl)
  rw [reported_misspelled] at hw₃
  have hread : w₃.store.get? "gate" = some (taskAt 3 (some Draft.epoch) misspelled misspelled) := by
    rw [hw₃, Store.get?_put]
    exact if_pos rfl
  obtain ⟨w₄, hvote₂, hw₄⟩ := votes hread rfl proposals.2.1 rfl (by decide) (by decide)
  obtain ⟨w₅, hvote₃, hw₅⟩ := votes hw₄ rfl proposals.2.2 rfl (by decide) (by decide)
  obtain ⟨w, w', report, hidle, hw, hends, hw'⟩ :=
    RunThrough.pass_idles_alone (Elsewhere "gate") hpassing hw₅ plan_respelled
  have hstored : w.store.get? "gate" =
      some (taskAt 5 (some Draft.epoch) misspelled respelled) := hw ▸ hw₅
  have hlisted₁ : w₁.store.ListedAt "gate" approverLists := listedAt (by decide) hw₁
  have hlisted₅ : w₅.store.ListedAt "gate" approverLists := listedAt (by decide) hw₅
  have hrun : RunThrough (Store.ListedAt "gate" approverLists) (VoteOrPass "gate")
      (Elsewhere "gate") (start s₀) w :=
    ((hvote₁.trans (hpass.weaken fun s hs => hs ▸ hlisted₁)).tail
      ⟨hcounts.step, listedAt (by decide) hread⟩).trans
      ((hvote₂.trans hvote₃).trans (hidle.weaken fun s hs => hs ▸ hlisted₅))
  obtain ⟨report', s', u, hpass', hu, hrecounted⟩ :=
    Pass.recounting_of_stored Draft.epoch .zero hstored
  refine ⟨_, s₀, w, w', report, _, rfl, create_task, hrun, approverLists_fit,
    hash_injOn_approverLists, ?_, hends, hw'.symm ▸ hw₅, rfl, report', s', u, hpass', hu, ?_⟩
  · intro t ht
    obtain rfl := Option.some.inj (hstored.symm.trans ht)
    decide
  · rw [hrecounted, recount_respelled]

end Traffic
end Quorum
