import Mathlib.Logic.Relation
import Quorum.Ballot
import Quorum.Pass
import Quorum.Proofs.Writes

/-!
# Many writers on one store

Votes and reconcile passes are taken apart into single reads and writes of the store (`Call`), the
same text that runs them when nobody else writes (`Ballot.run_call`, `Pass.run_call`). Any number of
them run side by side, in any order, among direct writes of others (`Traffic.Step`).
-/
namespace Quorum

/-- What a call may ask the store to write. -/
inductive Submission
  | spec (t : Task)
  | status (t : Task)

/-- The write that is asked for, against the store as it is then and not as it was read. -/
def Submission.run : Submission → Store → Except StoreError (Task × Store)
  | spec t, s => s.update t
  | status t, s => s.updateStatus t

theorem Submission.advances {w : Submission} {s s' : Store} {t : Task} {key : String}
    (h : w.run s = .ok (t, s')) : s.Advances key s' := by
  cases w with
  | spec => exact .update h
  | status => exact .updateStatus h

/-- What is left of a call: an answer, or what it does next with the store. -/
inductive Call (α : Type)
  | done (a : α)
  | read (next : Store → Call α)
  | write (w : Submission) (next : Except StoreError Task → Call α)

namespace Call

/-- One call after the other. With it calls are a monad, so the text that casts votes and runs
passes can be read as one. -/
def bind : Call α → (α → Call β) → Call β
  | done a, f => f a
  | read next, f => read fun s => (next s).bind f
  | write w next, f => write w fun r => (next r).bind f

instance : Monad Call where
  pure := done
  bind := bind

def look : Call Store := read done

def submit (w : Submission) : Call (Except StoreError Task) := write w done

/-- The call from here to its end when nobody else writes. -/
def run : Call α → StateM Store α
  | done a, s => (a, s)
  | read next, s => (next s).run s
  | write w next, s =>
    match w.run s with
    | .ok (t, s) => (next (.ok t)).run s
    | .error e => (next (.error e)).run s

/-- What is left of the call after its next read or write, and the store if that was a write that
took effect. -/
def step : Call α → Store → Call α × Option Store
  | done a, _ => (done a, none)
  | read next, s => (next s, none)
  | write w next, s =>
    match w.run s with
    | .ok (t, s') => (next (.ok t), some s')
    | .error e => (next (.error e), none)

theorem advances_step (c : Call α) (s : Store) (key : String) :
    s.Advances key ((c.step s).2.getD s) := by
  cases c with
  | done => exact .of_get?_eq rfl
  | read => exact .of_get?_eq rfl
  | write w next =>
    simp only [step]
    cases hwrite : w.run s with
    | error e => exact .of_get?_eq rfl
    | ok written => exact Submission.advances hwrite

end Call

theorem stateM_bind_apply (x : StateM σ α) (k : α → StateM σ β) (s : σ) :
    (x >>= k) s = k (x s).1 (x s).2 := rfl

namespace Ballot

/-- The vote with `left` tries to go. -/
def callWith (b : Ballot) (retries left : Nat) : Call (Except CastError Task) :=
  b.tryCast Call.look (fun t => Call.submit (.spec t)) retries left

/-- The vote once its write has been answered. -/
def settle (b : Ballot) (retries left : Nat) :
    Except StoreError Task → Call (Except CastError Task)
  | .ok t => .done (.ok t)
  | .error (.conflict ..) => b.callWith retries left
  | .error e => .done (.error (.store e))

/-- The vote once the task has been read: an answer, if nothing can be proposed, or the write that
is still to come. -/
def offer (b : Ballot) (retries left : Nat) (s : Store) : Call (Except CastError Task) :=
  match b.propose s with
  | .error e => .done (.error e)
  | .ok proposed => .write (.spec proposed) (b.settle retries left)

theorem callWith_zero (b : Ballot) (retries : Nat) :
    b.callWith retries 0 = .done (.error (.retriesExhausted b.key (attempts retries))) := rfl

theorem callWith_succ (b : Ballot) (retries left : Nat) :
    b.callWith retries (left + 1) = .read (b.offer retries left) := rfl

/-- The vote as a call, the very text of `cast` with single reads and writes in place of a store. -/
def call (b : Ballot) (retries : Nat) : Call (Except CastError Task) :=
  b.callWith retries (attempts retries)

theorem run_callWith (b : Ballot) (retries left : Nat) :
    (b.callWith retries left).run =
      b.tryCast (m := StateM Store) MonadState.get writeSpec retries left := by
  induction left with
  | zero => rfl
  | succ left ih =>
    funext s
    rw [callWith_succ, Call.run, offer, tryCast]
    change _ = (match b.propose s with
      | .error e => _
      | .ok proposed => _ : StateM Store _) s
    cases b.propose s with
    | error e => rfl
    | ok proposed =>
      simp only [stateM_bind_apply, writeSpec, Call.run, Submission.run]
      cases s.update proposed with
      | ok written => rfl
      | error e =>
        cases e with
        | conflict => exact congrFun ih s
        | notFound => rfl
        | alreadyExists => rfl

theorem run_call (b : Ballot) (retries : Nat) : (b.call retries).run = b.cast retries :=
  run_callWith ..

end Ballot

namespace Pass

/-- The pass once its write has been answered. -/
def settle (p : Plan) (now : Instant) (limit : Span) :
    Except StoreError Task → Call (Except StoreError Report)
  | .error e => .done (.error e)
  | .ok _ => .done (.ok (p.report now limit))

/-- The pass once the task has been read. A task that is up to date is answered for without a
write. -/
def offer (key : String) (now : Instant) (limit : Span) (s : Store) :
    Call (Except StoreError Report) :=
  match s.get key with
  | .error e => .done (.error e)
  | .ok t =>
    let p := plan t now limit
    if p.changed then .write (.status p.task) (settle p now limit)
    else .done (.ok (p.report now limit))

/-- The pass as a call, the very text of `run`. -/
def call (key : String) (now : Instant) (limit : Span) : Call (Except StoreError Report) :=
  runWith Call.look (fun t => Call.submit (.status t)) key now limit

theorem call_eq (key : String) (now : Instant) (limit : Span) :
    call key now limit = .read (offer key now limit) := rfl

theorem run_call (key : String) (now : Instant) (limit : Span) :
    (call key now limit).run = run key now limit := by
  funext s
  rw [call_eq, Call.run, offer, Pass.run, runWith]
  change _ = (match s.get key with
    | .error e => _
    | .ok t => _ : StateM Store _) s
  cases s.get key with
  | error e => rfl
  | ok t =>
    simp only
    split
    · simp only [stateM_bind_apply, writeStatus, Call.run, Submission.run]
      cases s.updateStatus (plan t now limit).task with
      | ok written => rfl
      | error e => rfl
    · rfl

end Pass

/-- What a client may be at work on. Passes over all tasks are as many passes over one task each. -/
inductive Job
  | vote (b : Ballot) (retries : Nat)
  | pass (key : String) (now : Instant) (limit : Span)

namespace Job

def key : Job → String
  | vote b _ => b.key
  | pass key _ _ => key

abbrev Result : Job → Type
  | vote .. => Except CastError Task
  | pass .. => Except StoreError Pass.Report

def call : (j : Job) → Call j.Result
  | vote b retries => b.call retries
  | pass key now limit => Pass.call key now limit

end Job

/-- A job, what is left of it, and its writes that took effect, each as the store before and
after. -/
structure Client where
  job : Job
  call : Call job.Result
  landed : List (Store × Store) := []

namespace Client

def start (j : Job) : Client := { job := j, call := j.call }

/-- The next read or write of the client, and the store after it. -/
def step (c : Client) (s : Store) : Client × Store :=
  let next := c.call.step s
  ({ c with call := next.1, landed := c.landed ++ next.2.toList.map (s, ·) }, next.2.getD s)

theorem landed_step (c : Client) (s : Store) :
    (c.step s).1.landed = c.landed ∨ (c.step s).1.landed = c.landed ++ [(s, (c.step s).2)] := by
  simp only [step]
  cases (c.call.step s).2 with
  | none => exact .inl (List.append_nil _)
  | some s' => exact .inr rfl

/-- A write that is refused changes nothing, so only writes that landed need to be looked at. -/
theorem store_step_of_error {c : Client} {v : Submission} {s : Store} {e : StoreError}
    {next : Except StoreError Task → Call c.job.Result} (hcall : c.call = .write v next)
    (hwrite : v.run s = .error e) : (c.step s).2 = s := by
  simp only [step, hcall, Call.step, hwrite, Option.getD_none]

theorem advances_step (c : Client) (s : Store) (key : String) : s.Advances key (c.step s).2 :=
  c.call.advances_step s key

end Client

/-- A store and everybody at work on it. Each client remembers what it has read, since others may
write before it does. -/
structure Traffic where
  store : Store
  clients : List Client := []

namespace Traffic

def start (s : Store) : Traffic := { store := s }

/-- One step of anybody: a job comes in, a client reads or writes, or somebody else writes. -/
inductive Step (jobs : Job → Prop) (others : Store → Store → Prop) : Traffic → Traffic → Prop
  | arrive (w : Traffic) (j : Job) (hj : jobs j) :
    Step jobs others w { w with clients := w.clients ++ [.start j] }
  | act (w : Traffic) (i : Nat) (c : Client) (hc : w.clients[i]? = some c) :
    Step jobs others w ⟨(c.step w.store).2, w.clients.set i (c.step w.store).1⟩
  | write (w : Traffic) (s : Store) (hs : others w.store s) :
    Step jobs others w { w with store := s }

/-- Any number of steps in any order. Every interleaving of the clients is one of these runs, and so
is everything that is cut short. -/
abbrev Run (jobs : Job → Prop) (others : Store → Store → Prop) : Traffic → Traffic → Prop :=
  Relation.ReflTransGen (Step jobs others)

variable {jobs : Job → Prop} {others : Store → Store → Prop} {w w' : Traffic} {c : Client}

theorem Step.of_act (i : Nat) (hc : w.clients[i]? = some c)
    (hstore : w'.store = (c.step w.store).2)
    (hclients : w'.clients = w.clients.set i (c.step w.store).1) : Step jobs others w w' := by
  obtain ⟨s', clients'⟩ := w'
  obtain rfl : s' = _ := hstore
  obtain rfl : clients' = _ := hclients
  exact .act w i c hc

theorem Step.advances {key : String} (h : Step jobs others w w')
    (hothers : ∀ s s', others s s' → s.Advances key s') : w.store.Advances key w'.store := by
  cases h with
  | arrive j hj => exact .of_get?_eq rfl
  | act i c hc => exact c.advances_step _ _
  | write s hs => exact hothers _ _ hs

/-- Where a client comes from: it has just arrived, it has just moved, or it has only watched. -/
theorem Step.client_cases (h : Step jobs others w w') (hc : c ∈ w'.clients) :
    (∃ j, jobs j ∧ c = .start j) ∨
    (∃ d ∈ w.clients, c = (d.step w.store).1 ∧ w'.store = (d.step w.store).2) ∨
    c ∈ w.clients := by
  cases h with
  | arrive j hj =>
    rcases List.mem_append.mp hc with hold | hnew
    · exact .inr (.inr hold)
    · exact .inl ⟨j, hj, List.mem_singleton.mp hnew⟩
  | act i d hd =>
    rcases List.mem_or_eq_of_mem_set hc with hold | hmoved
    · exact .inr (.inr hold)
    · exact .inr (.inl ⟨d, List.mem_of_getElem? hd, hmoved, rfl⟩)
  | write s hs => exact .inr (.inr hc)

/-- The writes that clients remember are steps of the run. -/
theorem Run.landed {s : Store} (h : Run jobs others (start s) w) (hc : c ∈ w.clients)
    {before after : Store} (hwrite : (before, after) ∈ c.landed) :
    ∃ w₁ w₂, Run jobs others (start s) w₁ ∧ Step jobs others w₁ w₂ ∧ Run jobs others w₂ w ∧
      w₁.store = before ∧ w₂.store = after := by
  induction h generalizing c with
  | refl => cases hc
  | @tail w₁ w₂ hrun hstep ih =>
    have earlier {d : Client} (hd : d ∈ w₁.clients) (hmem : (before, after) ∈ d.landed) :
        ∃ v₁ v₂, Run jobs others (start s) v₁ ∧ Step jobs others v₁ v₂ ∧
          Run jobs others v₂ w₂ ∧ v₁.store = before ∧ v₂.store = after := by
      obtain ⟨v₁, v₂, hv₁, hv, hv₂, hstores⟩ := ih hd hmem
      exact ⟨v₁, v₂, hv₁, hv, hv₂.tail hstep, hstores⟩
    rcases hstep.client_cases hc with ⟨j, -, rfl⟩ | ⟨d, hd, rfl, hstore⟩ | hold
    · cases hwrite
    · rcases d.landed_step w₁.store with hsame | hlanded
      · exact earlier hd (hsame ▸ hwrite)
      · rw [hlanded, List.mem_append, List.mem_singleton] at hwrite
        rcases hwrite with hbefore | hnow
        · exact earlier hd hbefore
        · cases hnow
          exact ⟨w₁, w₂, hrun, hstep, .refl, rfl, hstore⟩
    · exact earlier hold hwrite

/-- A task stays stored, as long as other writers take none away. A vote that found its task once
will find it again. -/
theorem Run.stays_stored {key : String} {t : Task} (h : Run jobs others w w')
    (hothers : ∀ s s', others s s' → s.Advances key s') (ht : w.store.get? key = some t) :
    ∃ t', w'.store.get? key = some t' := by
  induction h with
  | refl => exact ⟨t, ht⟩
  | tail _ hstep ih =>
    obtain ⟨u, hu⟩ := ih
    obtain ⟨u', hu', -⟩ := hstep.advances hothers u hu
    exact ⟨u', hu'⟩

/-- A client that nobody disturbs comes to the end that its call comes to alone. -/
theorem Run.finish {j : Job} (call : Call j.Result) (s : Store) (clients : List Client)
    (landed : List (Store × Store)) :
    ∃ landed', Run jobs others ⟨s, clients ++ [⟨j, call, landed⟩]⟩
      ⟨(call.run s).2, clients ++ [⟨j, .done (call.run s).1, landed'⟩]⟩ := by
  have hlast (c : Client) : (clients ++ [c])[clients.length]? = some c := by simp
  have hset (c d : Client) : clients ++ [d] = (clients ++ [c]).set clients.length d := by simp
  induction call generalizing s landed with
  | done a => exact ⟨landed, .refl⟩
  | read next ih =>
    obtain ⟨landed', hrest⟩ := ih s s (landed ++ [])
    exact ⟨landed', hrest.head (.of_act _ (hlast _) rfl (hset _ _))⟩
  | write v next ih =>
    cases hwrite : v.run s with
    | error e =>
      obtain ⟨landed', hrest⟩ := ih (.error e) s (landed ++ [])
      refine ⟨landed', ?_⟩
      simp only [Call.run, hwrite]
      refine hrest.head (.of_act _ (hlast _) ?_ ?_)
      · simp [Client.step, Call.step, hwrite]
      · simp [Client.step, Call.step, hwrite]
    | ok written =>
      obtain ⟨landed', hrest⟩ := ih (.ok written.1) written.2 (landed ++ [(s, written.2)])
      refine ⟨landed', ?_⟩
      simp only [Call.run, hwrite]
      refine hrest.head (.of_act _ (hlast _) ?_ ?_)
      · simp [Client.step, Call.step, hwrite]
      · simp [Client.step, Call.step, hwrite]

/-- A vote that nobody disturbs is cast as if it were alone. -/
theorem Run.vote_alone {b : Ballot} {retries : Nat} {answer : Except CastError Task} {s : Store}
    (hj : jobs (.vote b retries)) (hcast : b.cast retries w.store = (answer, s)) :
    ∃ c, Run jobs others w ⟨s, w.clients ++ [c]⟩ := by
  obtain ⟨landed, hrun⟩ := Run.finish (j := .vote b retries) (b.call retries) w.store w.clients []
  rw [b.run_call retries, hcast] at hrun
  exact ⟨_, hrun.head (.arrive w _ hj)⟩

theorem Run.pass_alone {key : String} {now : Instant} {limit : Span}
    {answer : Except StoreError Pass.Report} {s : Store} (hj : jobs (.pass key now limit))
    (hpass : Pass.run key now limit w.store = (answer, s)) :
    ∃ c, Run jobs others w ⟨s, w.clients ++ [c]⟩ := by
  obtain ⟨landed, hrun⟩ :=
    Run.finish (j := .pass key now limit) (Pass.call key now limit) w.store w.clients []
  rw [Pass.run_call key now limit, hpass] at hrun
  exact ⟨_, hrun.head (.arrive w _ hj)⟩

end Traffic
end Quorum
