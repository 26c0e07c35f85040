import Mathlib.Data.List.Induction
import Quorum.Proofs.Gathering

/-!
# Simultaneous voters all land

Voters that gather on a task take their steps in any order (`Traffic.follow`). A write can only lose
to a vote that has landed since the task was read, so every lost write is paid for by another
voter, and as many tries as there are voters are enough (`Voter.Progress`). However the steps fall,
no vote fails, each one lands within two steps for every voter, and the task that is left says what
they voted (`Traffic.simultaneous_votes_all_land`).
-/
namespace Quorum
namespace Traffic

/-- The next read or write of the client at `i`; nothing if there is no such client. -/
def turn (w : Traffic) (i : Nat) : Traffic :=
  match w.clients[i]? with
  | some c => ⟨(c.step w.store).2, w.clients.set i (c.step w.store).1⟩
  | none => w

/-- The clients take their steps in this order. -/
def follow (w : Traffic) (turns : List Nat) : Traffic := turns.foldl turn w

variable {w w' : Traffic}

theorem follow_concat (turns : List Nat) (i : Nat) :
    w.follow (turns ++ [i]) = (w.follow turns).turn i := by
  rw [follow, List.foldl_append]
  rfl

theorem turn_of_get {i : Nat} {c : Client} (hc : w.clients[i]? = some c) :
    w.turn i = ⟨(c.step w.store).2, w.clients.set i (c.step w.store).1⟩ := by
  simp only [turn, hc]

theorem length_clients_turn (w : Traffic) (i : Nat) :
    (w.turn i).clients.length = w.clients.length := by
  unfold turn
  split
  · exact List.length_set
  · rfl

theorem length_clients_follow (w : Traffic) (turns : List Nat) :
    (w.follow turns).clients.length = w.clients.length := by
  induction turns generalizing w with
  | nil => rfl
  | cons i turns ih => exact (ih (w.turn i)).trans (length_clients_turn w i)

/-- Orders of steps are the runs in which nobody arrives and nobody else writes. -/
theorem run_iff_follow :
    Run (fun _ => False) (fun _ _ => False) w w' ↔ ∃ turns, w' = w.follow turns := by
  constructor
  · intro h
    induction h with
    | refl => exact ⟨[], rfl⟩
    | tail _ hstep ih =>
      obtain ⟨turns, rfl⟩ := ih
      cases hstep with
      | arrive j hj => exact hj.elim
      | write s hs => exact hs.elim
      | act i c hc =>
        exact ⟨turns ++ [i], by rw [follow_concat, turn_of_get hc]⟩
  · intro h
    obtain ⟨turns, rfl⟩ := h
    induction turns generalizing w with
    | nil => exact .refl
    | cons i turns ih =>
      refine .trans ?_ ih
      unfold turn
      split
      · next c hc => exact .single (.act w i c hc)
      · exact .refl

end Traffic

/-- Of a call whose voter has taken `taken` steps, when the votes `done` have landed on the task
that `s` stores and `goal` is the version after all votes: the tries that are left are enough for
the votes that may still come in between, and so are the steps that were taken for those that
have. -/
inductive Voter.Progress (v : Voter) (t : Task) (voters : List Voter) (s : Store)
    (done : List Ballot) (taken : Nat) : Call (Except CastError Task) → Prop
  | reading (left : Nat) (hnot : v.ballot ∉ done)
    (hleft : voters.length ≤ done.length + left + 1)
    (htaken : taken + 2 * (voters.length - done.length) ≤ 2 * voters.length) :
    Progress v t voters s done taken (.read (v.ballot.offer v.retries left))
  | writing (left behind : Nat) {read proposed : Task} (hnot : v.ballot ∉ done)
    (hkey : read.key = v.ballot.key) (hread : s.Follows read)
    (hproposes : v.ballot.Proposes read proposed)
    (hversion : read.metadata.version = t.metadata.version + behind)
    (hbehind : behind ≤ done.length) (hleft : voters.length ≤ behind + left + 1)
    (htaken : taken + 2 * (voters.length - behind) ≤ 2 * voters.length + 1) :
    Progress v t voters s done taken (.write (.spec proposed) (v.ballot.settle v.retries left))
  | landed (u : Task) (hdone : v.ballot ∈ done) : Progress v t voters s done taken (.done (.ok u))

namespace Voter.Progress
variable {v : Voter} {t : Task} {voters : List Voter} {s s' : Store} {done : List Ballot}
  {taken : Nat} {call : Call (Except CastError Task)}

/-- A vote of somebody else leaves fewer of them to come. -/
theorem of_other (h : v.Progress t voters s done taken call) {b : Ballot} (hne : v.ballot ≠ b)
    (hadv : s.Advances v.ballot.key s') : v.Progress t voters s' (b :: done) taken call := by
  have hmem : v.ballot ∈ b :: done ↔ v.ballot ∈ done := by simp [hne]
  cases h with
  | reading left hnot hleft htaken =>
    refine .reading left (mt hmem.mp hnot) ?_ ?_
    · rw [List.length_cons]
      omega
    · rw [List.length_cons]
      omega
  | writing left behind hnot hkey hread hproposes hversion hbehind hleft htaken =>
    refine .writing left behind (mt hmem.mp hnot) hkey (hread.advance (hkey ▸ hadv)) hproposes
      hversion ?_ hleft htaken
    rw [List.length_cons]
    omega
  | landed u hdone => exact .landed u (hmem.mpr hdone)

/-- Nobody needs more than two steps for each voter. -/
theorem landed_of_taken (h : v.Progress t voters s done taken call)
    (hlength : v.ballot ∉ done → done.length < voters.length) (htaken : 2 * voters.length ≤ taken) :
    ∃ u, call = .done (.ok u) := by
  cases h with
  | reading left hnot hleft hbound =>
    have := hlength hnot
    omega
  | writing left behind hnot hkey hread hproposes hversion hbehind hleft hbound =>
    have := hlength hnot
    omega
  | landed u hdone => exact ⟨u, rfl⟩

end Voter.Progress

namespace Traffic

/-- A store, and the voters before their first steps. -/
def ofVoters (s : Store) (voters : List Voter) : Traffic :=
  ⟨s, voters.map fun v => .start (.vote v.ballot v.retries)⟩

/-- What holds while the voters take their steps, when the votes `done` have landed and made the
task `u`. -/
structure Underway (t : Task) (voters : List Voter) (turns : List Nat) (w : Traffic)
    (done : List Ballot) (u : Task) : Prop where
  stored : w.store.get? t.key = some u
  after : Gathering.After t voters done u
  length_clients : w.clients.length = voters.length
  clients : ∀ i (v : Voter), voters[i]? = some v →
    ∃ (call : Call (Except CastError Task)) (landed : List (Store × Store)),
      w.clients[i]? = some ⟨.vote v.ballot v.retries, call, landed⟩ ∧
      v.Progress t voters w.store done (turns.count i) call

namespace Underway
variable {t u u' : Task} {voters : List Voter} {turns : List Nat} {w : Traffic} {s' : Store}
  {done done' : List Ballot} {v : Voter} {i : Nat}

theorem start (h : Gathering t voters) {s : Store} (hstored : s.get? t.key = some t) :
    Underway t voters [] (ofVoters s voters) [] t where
  stored := hstored
  after := h.after_nil
  length_clients := by simp [ofVoters]
  clients i v hv := by
    have hmem : v ∈ voters := List.mem_of_getElem? hv
    refine ⟨v.ballot.call v.retries, [], by simp [ofVoters, hv, Client.start, Job.call], ?_⟩
    have htries := h.retries v hmem
    have hfew := h.few
    obtain ⟨left, hleft, hcall⟩ := v.ballot.call_eq_read v.retries
    rw [hcall]
    refine .reading left List.not_mem_nil ?_ (by simp)
    unfold Ballot.attempts at hleft
    rw [List.length_nil]
    omega

/-- A step of one voter, and the others where it leaves them. -/
theorem moved (h : Underway t voters turns w done u) (hv : voters[i]? = some v)
    {call : Call (Except CastError Task)} {landed : List (Store × Store)}
    (hstored : s'.get? t.key = some u') (hafter : Gathering.After t voters done' u')
    (hmover : v.Progress t voters s' done' (turns.count i + 1) call)
    (hothers : ∀ j x call, voters[j]? = some x → j ≠ i →
      x.Progress t voters w.store done (turns.count j) call →
      x.Progress t voters s' done' (turns.count j) call) :
    Underway t voters (turns ++ [i])
      ⟨s', w.clients.set i ⟨.vote v.ballot v.retries, call, landed⟩⟩ done' u' where
  stored := hstored
  after := hafter
  length_clients := by simp [h.length_clients]
  clients j x hx := by
    obtain ⟨call', landed', hclient, hprogress⟩ := h.clients j x hx
    by_cases hji : j = i
    · subst hji
      obtain rfl : v = x := Option.some.inj (hv.symm.trans hx)
      have hlength : j < w.clients.length := (List.getElem?_eq_some_iff.mp hclient).1
      refine ⟨call, landed, by simp [hlength], ?_⟩
      simpa using hmover
    · refine ⟨call', landed', by simp [Ne.symm hji, hclient], ?_⟩
      have hcount : (turns ++ [i]).count j = turns.count j := by
        simp [List.count_append, Ne.symm hji]
      rw [hcount]
      exact hothers j x call' hx hji hprogress

theorem room (h : Gathering t voters) (hw : Underway t voters turns w done u)
    (hlength : done.length < voters.length) : w.store.HasRoom t.key := by
  intro x hx
  obtain rfl : u = x := Option.some.inj (hw.stored.symm.trans hx)
  have := h.room
  rw [hw.after.version_eq]
  omega

/-- Of a proposal that has not been overtaken comes the next vote; any other is made again. -/
theorem write (h : Gathering t voters) (hw : Underway t voters turns w done u)
    (hv : voters[i]? = some v) {left behind : Nat} {read proposed : Task}
    (hnot : v.ballot ∉ done) (hkey : read.key = v.ballot.key) (hread : w.store.Follows read)
    (hproposes : v.ballot.Proposes read proposed)
    (hversion : read.metadata.version = t.metadata.version + behind)
    (hbehind : behind ≤ done.length) (hleft : voters.length ≤ behind + left + 1)
    (htaken : turns.count i + 2 * (voters.length - behind) ≤ 2 * voters.length + 1)
    (landed : List (Store × Store)) :
    ∃ done' u', Underway t voters (turns ++ [i])
      (let c : Client := ⟨.vote v.ballot v.retries,
        .write (.spec proposed) (v.ballot.settle v.retries left), landed⟩
      ⟨(c.step w.store).2, w.clients.set i (c.step w.store).1⟩) done' u' := by
  have hmem : v ∈ voters := List.mem_of_getElem? hv
  have hlength := hw.after.length_lt hmem hnot
  have hroom := room h hw hlength
  have hreadkey : read.key = t.key := hkey.trans (h.keyed v hmem)
  simp only [Client.step, Call.step, Submission.run]
  by_cases hlate : behind = done.length
  · have hcur : w.store.get? read.key = some u := hreadkey ▸ hw.stored
    have hsame : read.metadata.version = u.metadata.version := by
      rw [hversion, hw.after.version_eq, hlate]
    obtain rfl : u = read := hread.eq_of_version (hreadkey ▸ hroom) hcur hsame
    rw [Ballot.update_of_proposes (hkey ▸ hcur) hproposes]
    have hafter := hw.after.vote h hmem hnot hproposes
    have hput : (w.store.put (Store.edited u proposed)).get? t.key =
        some (Store.edited u proposed) := by
      rw [Store.get?_put, if_pos hafter.key_eq.symm]
    refine ⟨v.ballot :: done, _, hw.moved hv hput hafter (.landed _ List.mem_cons_self) ?_⟩
    intro j x call hx hji hprogress
    have hne : x.ballot ≠ v.ballot := by
      intro heq
      refine hji ((List.getElem?_inj (List.getElem?_eq_some_iff.mp hx).1 h.voters_nodup).mp ?_)
      rw [hx, hv]
      exact congrArg some (List.inj_on_of_nodup_map h.ballots_nodup
        (List.mem_of_getElem? hx) hmem heq)
    refine hprogress.of_other hne ?_
    exact .put (hafter.key_eq ▸ hw.stored) rfl
  · have hcur : w.store.get? proposed.key = some u := by
      rw [hproposes.key_eq, hreadkey, hw.stored]
    have hne : proposed.metadata.version ≠ u.metadata.version := by
      rw [hproposes.version_eq, hversion, hw.after.version_eq]
      omega
    rw [Store.update_of_version_ne hcur hne]
    obtain ⟨rest, rfl⟩ : ∃ rest, left = rest + 1 :=
      Nat.exists_eq_succ_of_ne_zero (by omega)
    refine ⟨done, u, hw.moved hv hw.stored hw.after ?_ fun _ _ _ _ _ hprogress => hprogress⟩
    exact .reading rest hnot (by omega) (by omega)

/-- One step of anybody. -/
theorem turn (h : Gathering t voters) (hw : Underway t voters turns w done u) (i : Nat) :
    ∃ done' u', Underway t voters (turns ++ [i]) (w.turn i) done' u' := by
  cases hv : voters[i]? with
  | none =>
    have hclient : w.clients[i]? = none := by
      rw [List.getElem?_eq_none_iff] at hv ⊢
      rw [hw.length_clients]
      exact hv
    refine ⟨done, u, ?_⟩
    rw [Traffic.turn, hclient]
    refine ⟨hw.stored, hw.after, hw.length_clients, fun j x hx => ?_⟩
    have hne : i ≠ j := by
      rintro rfl
      rw [hv] at hx
      cases hx
    rw [List.count_append, List.count_singleton, beq_false_of_ne hne]
    exact hw.clients j x hx
  | some v =>
    have hmem : v ∈ voters := List.mem_of_getElem? hv
    obtain ⟨call, landed, hclient, hprogress⟩ := hw.clients i v hv
    rw [turn_of_get hclient]
    cases hprogress with
    | reading left hnot hleft htaken =>
      have hkeyed : w.store.get? v.ballot.key = some u := by rw [h.keyed v hmem, hw.stored]
      obtain ⟨proposed, hproposes⟩ := hw.after.proposes h hmem hnot
      refine ⟨done, u, hw.moved hv hw.stored hw.after ?_ fun _ _ _ _ _ hprogress => hprogress⟩
      rw [Call.step, Ballot.offer_of_proposes v.retries left hkeyed hproposes]
      exact .writing left done.length hnot (Store.key_of_get? hkeyed) (.of_get? hkeyed) hproposes
        hw.after.version_eq (Nat.le_refl _) hleft (by omega)
    | writing left behind hnot hkey hread hproposes hversion hbehind hleft htaken =>
      exact write h hw hv hnot hkey hread hproposes hversion hbehind hleft htaken landed
    | landed x hdone =>
      exact ⟨done, u, hw.moved hv hw.stored hw.after (.landed x hdone)
        fun _ _ _ _ _ hprogress => hprogress⟩

theorem follow (h : Gathering t voters) {s : Store} (hstored : s.get? t.key = some t)
    (turns : List Nat) :
    ∃ done u, Underway t voters turns ((ofVoters s voters).follow turns) done u := by
  induction turns using List.reverseRecOn with
  | nil => exact ⟨[], t, start h hstored⟩
  | append_singleton turns i ih =>
    obtain ⟨done, u, hw⟩ := ih
    rw [follow_concat]
    exact turn h hw i

end Underway

/-- However the voters' steps fall: no call that has come to an end is an error, none is without its
end after two steps for each voter, and once all have ended the version has risen by one for each
voter, every voter's slot holds their vote, and the tally is that of the voters. -/
theorem simultaneous_votes_all_land {s : Store} {t : Task} {voters : List Voter}
    (hstored : s.get? t.key = some t) (hgathering : Gathering t voters) (turns : List Nat) :
    (∀ i (v : Voter), voters[i]? = some v →
      ∃ (call : Call (Except CastError Task)) (landed : List (Store × Store)),
        ((ofVoters s voters).follow turns).clients[i]? =
          some ⟨.vote v.ballot v.retries, call, landed⟩ ∧
        (∀ answer, call = .done answer → ∃ u, answer = .ok u) ∧
        (2 * voters.length ≤ turns.count i → ∃ u, call = .done (.ok u))) ∧
    ((∀ c ∈ ((ofVoters s voters).follow turns).clients, ∃ answer, c.call = .done answer) →
      ∃ u, ((ofVoters s voters).follow turns).store.get? t.key = some u ∧
        u.metadata.version = t.metadata.version + voters.length ∧
        (∀ v ∈ voters, v.ballot.slotVote? u.spec = some v.vote) ∧
        u.spec.tally = Gathering.tally voters) := by
  obtain ⟨done, u, hw⟩ := Underway.follow hgathering hstored turns
  constructor
  · intro i v hv
    obtain ⟨call, landed, hclient, hprogress⟩ := hw.clients i v hv
    have hlength := hw.after.length_lt (List.mem_of_getElem? hv)
    refine ⟨call, landed, hclient, ?_, hprogress.landed_of_taken hlength⟩
    intro answer hanswer
    rw [hanswer] at hprogress
    cases hprogress with
    | landed u hdone => exact ⟨u, rfl⟩
  · intro hended
    have hall : ∀ v ∈ voters, v.ballot ∈ done := by
      intro v hv
      obtain ⟨i, hi⟩ := List.mem_iff_getElem?.mp hv
      obtain ⟨call, landed, hclient, hprogress⟩ := hw.clients i v hi
      obtain ⟨answer, hanswer⟩ := hended _ (List.mem_of_getElem? hclient)
      rw [show call = .done answer from hanswer] at hprogress
      cases hprogress with
      | landed u hdone => exact hdone
    refine ⟨u, hw.stored, ?_, fun v hv => hw.after.votes _ (hall v hv), hw.after.tally_eq hall⟩
    rw [hw.after.version_eq, hw.after.length_eq hgathering hall]

/-- A gate that waits for a user and for a member of a group. -/
def sharedGate : Task where
  metadata := { name := "gate", version := 1 }
  spec := ⟨[.user "ann", .group "ops"], 2, none⟩
  status := .initial ⟨[.user "ann", .group "ops"], 2, none⟩

/-- A user who approves and a member of the group who rejects, each with a retry in case the other
one's write comes first. -/
def rivals : List Voter :=
  [⟨⟨"gate", ⟨"ann", []⟩, .approve, none⟩, 1⟩, ⟨⟨"gate", ⟨"bob", ["ops"]⟩, .reject, none⟩, 1⟩]

theorem gathering_rivals : Gathering sharedGate rivals where
  valid := Spec.problems_eq_nil_iff.mp (by decide)
  pending := Spec.votedProblems_eq_nil_iff.mp (by decide)
  status_open := rfl
  unanswered := rfl
  legible := by
    refine ⟨by decide, by simp [sharedGate], by decide, ?_, by decide, by decide, ?_, ?_⟩
    · exact Spec.WellFormed.legible (Spec.problems_eq_nil_iff.mp (by decide))
    · simp [sharedGate, Status.initial]
    · simp [sharedGate, Status.initial]
  keyed := by decide
  distinct := by decide
  named := by
    refine List.forall_mem_cons.mpr ⟨⟨rfl, ?_⟩, List.forall_mem_cons.mpr ⟨⟨rfl, ?_⟩, by simp⟩⟩
    · decide
    · decide
  listed := by
    refine List.forall_mem_cons.mpr ⟨?_, List.forall_mem_cons.mpr ⟨?_, by simp⟩⟩
    · exact ⟨.user "ann", by decide, .inl ⟨rfl, rfl⟩⟩
    · exact ⟨.group "ops", by decide, .inr ⟨rfl, .inl rfl⟩⟩
  decided := by decide
  required := by decide
  retries := by decide
  few := by decide
  room := by decide

/-- Both read the task, then one writes, so that the other loses and votes again. -/
def contest : List Nat := [0, 1, 0, 1, 1, 1, 0, 0]

theorem rivals_all_land :
    ∃ u, ((ofVoters (Store.empty.put sharedGate) rivals).follow contest).store.get? "gate" =
        some u ∧
      u.metadata.version = 3 ∧ u.spec.tally = ⟨.ofList ["ann"], true⟩ := by
  have hstored : (Store.empty.put sharedGate).get? sharedGate.key = some sharedGate := rfl
  obtain ⟨hclients, hend⟩ := simultaneous_votes_all_land hstored gathering_rivals contest
  have hturns : ∀ i < 2, 2 * rivals.length ≤ contest.count i := by decide
  obtain ⟨u, hu, hversion, -, htally⟩ := hend <| by
    intro c hc
    obtain ⟨i, hi, rfl⟩ := List.mem_iff_getElem.mp hc
    have hlt : i < 2 := by rwa [length_clients_follow] at hi
    obtain ⟨call, landed, hclient, -, hlands⟩ :=
      hclients i rivals[i] (List.getElem?_eq_getElem hlt)
    obtain ⟨u, hcall⟩ := hlands (hturns i hlt)
    rw [List.getElem?_eq_getElem hi, Option.some.injEq] at hclient
    rw [hclient]
    exact ⟨_, hcall⟩
  exact ⟨u, hu, hversion, htally.trans (by decide)⟩

end Traffic
end Quorum
