import Quorum.Proofs.Rounds
import Quorum.Proofs.Table

/-!
# Tasks of different identities

A task is filed under one text that is made of its namespace and its name. Whoever works on one task
looks at nothing but what is filed under its key, and writes nothing else (`Operation.confined`),
also in the midst of others (`Traffic.Run.mirror`). But keys do not tell all tasks apart: a slash in
a name may stand where another task's namespace ends (`Metadata.key_eq_iff`), and then the one is in
the place of the other (`Metadata.apart_unless_straddling`).
-/
namespace Quorum

namespace Metadata
variable {m n : Metadata}

/-- What tells tasks apart. -/
def identity (m : Metadata) : Option String × String := (m.space, m.name)

/-- The slash after the namespace of `n` is one within the name of `m`. -/
def Straddles (m n : Metadata) : Prop :=
  ∃ inner, m.name = inner ++ "/" ++ n.name ∧ n.space = some { m with name := inner }.key

/-- A list that goes on behind `sep` within one that goes on behind it later. -/
theorem exists_of_append_cons {sep : α} {as bs more : List α}
    (h : sep :: as = more ++ sep :: bs) :
    (more = [] ∧ as = bs) ∨ ∃ zs, more = sep :: zs ∧ as = zs ++ sep :: bs := by
  cases more with
  | nil => exact .inl ⟨rfl, (List.cons.inj h).2⟩
  | cons z zs =>
    obtain ⟨rfl, has⟩ := List.cons.inj h
    exact .inr ⟨zs, rfl, has⟩

/-- Two ways to read one text as two parts with a slash in between. -/
theorem append_slash_cases {x y a b : String} (h : x ++ "/" ++ a = y ++ "/" ++ b) :
    (x = y ∧ a = b) ∨ (∃ z, y = x ++ "/" ++ z ∧ a = z ++ "/" ++ b) ∨
      (∃ z, x = y ++ "/" ++ z ∧ b = z ++ "/" ++ a) := by
  have hlist : x.toList ++ '/' :: a.toList = y.toList ++ '/' :: b.toList := by
    simpa [String.append_assoc] using congrArg String.toList h
  rcases List.append_eq_append_iff.mp hlist with ⟨more, hy, ha⟩ | ⟨more, hx, hb⟩
  · rcases exists_of_append_cons ha with ⟨rfl, hab⟩ | ⟨zs, rfl, hrest⟩
    · refine .inl ⟨String.toList_inj.mp ?_, String.toList_inj.mp hab⟩
      rw [hy, List.append_nil]
    · refine .inr (.inl ⟨.ofList zs, String.toList_inj.mp ?_, String.toList_inj.mp ?_⟩)
      · simp [hy]
      · simp [hrest]
  · rcases exists_of_append_cons hb with ⟨rfl, hba⟩ | ⟨zs, rfl, hrest⟩
    · refine .inl ⟨String.toList_inj.mp ?_, String.toList_inj.mp hba.symm⟩
      rw [hx, List.append_nil]
    · refine .inr (.inr ⟨.ofList zs, String.toList_inj.mp ?_, String.toList_inj.mp ?_⟩)
      · simp [hx]
      · simp [hrest]

theorem Straddles.key_eq (h : m.Straddles n) : m.key = n.key := by
  obtain ⟨inner, hname, hspace⟩ := h
  cases hm : m.space with
  | none => simp [key, hm, hname, hspace]
  | some space => simp [key, hm, hname, hspace, String.append_assoc]

theorem key_eq_of_identity_eq (h : m.identity = n.identity) : m.key = n.key := by
  obtain ⟨hspace, hname⟩ := Prod.mk.inj h
  rw [key, key, hspace, hname]

/-- Tasks that differ are filed under one key only if a namespace ends within a name. -/
theorem key_eq_iff (hother : m.identity ≠ n.identity) :
    m.key = n.key ↔ m.Straddles n ∨ n.Straddles m := by
  constructor
  · intro h
    cases hm : m.space with
    | none =>
      cases hn : n.space with
      | none =>
        simp only [key, hm, hn] at h
        exact absurd (Prod.ext (hm.trans hn.symm) h) hother
      | some y =>
        simp only [key, hm, hn] at h
        exact .inl ⟨y, h, by simp [key, hm, hn]⟩
    | some x =>
      cases hn : n.space with
      | none =>
        simp only [key, hm, hn] at h
        exact .inr ⟨x, h.symm, by simp [key, hm, hn]⟩
      | some y =>
        simp only [key, hm, hn] at h
        rcases append_slash_cases h with ⟨rfl, hname⟩ | ⟨z, rfl, hname⟩ | ⟨z, rfl, hname⟩
        · exact absurd (Prod.ext (hm.trans hn.symm) hname) hother
        · exact .inl ⟨z, hname, by simp [key, hm, hn]⟩
        · exact .inr ⟨z, hname, by simp [key, hm, hn]⟩
  · rintro (h | h)
    · exact h.key_eq
    · exact h.key_eq.symm

/-- Where names have no slash, keys tell tasks apart. -/
theorem identity_eq_of_key_eq (hm : '/' ∉ m.name.toList) (hn : '/' ∉ n.name.toList)
    (h : m.key = n.key) : m.identity = n.identity := by
  by_contra hother
  rcases (key_eq_iff hother).mp h with ⟨inner, hname, -⟩ | ⟨inner, hname, -⟩
  · simp [hname] at hm
  · simp [hname] at hn

end Metadata

namespace Store
variable {s s' s₀ : Store} {key k : String} {t : Task}
  {f : Store → Except StoreError (Task × Store)}

/-- What is filed under `key` decides what `f` does, and that is to put a task in its place or
nothing. -/
def Places (key : String) (f : Store → Except StoreError (Task × Store)) : Prop :=
  ∀ s : Store, ∃ r : Except StoreError Task, (∀ t, r = .ok t → t.key = key) ∧
    ∀ s' : Store, s'.get? key = s.get? key → f s' = r.map fun t => (t, s'.put t)

theorem places_create (t : Task) : Places t.key (·.create t) := by
  intro s
  cases hs : s.get? t.key with
  | none =>
    refine ⟨.ok { t with metadata.version := 1 }, ?_, fun s' hs' => ?_⟩
    · rintro u ⟨⟩
      rfl
    · change s'.create t = _
      rw [create, hs']
      rfl
  | some _ =>
    refine ⟨.error (.alreadyExists t.key), by simp, fun s' hs' => ?_⟩
    change s'.create t = _
    rw [create, hs']
    rfl

theorem base_congr (h : s'.get? t.key = s.get? t.key) : s'.base t = s.base t := by
  rw [base, base, h]

theorem places_update (t : Task) : Places t.key (·.update t) := by
  intro s
  refine ⟨(s.base t).map (edited · t), ?_, fun s' hs' => ?_⟩
  · intro u hu
    cases hs : s.base t with
    | error e => simp [hs, Except.map] at hu
    | ok cur =>
      rw [hs] at hu
      cases hu
      rfl
  · change s'.update t = _
    rw [update, base_congr hs']
    cases s.base t with
    | error e => rfl
    | ok cur => rfl

theorem places_updateStatus (t : Task) : Places t.key (·.updateStatus t) := by
  intro s
  refine ⟨(s.base t).map (reported · t), ?_, fun s' hs' => ?_⟩
  · intro u hu
    cases hs : s.base t with
    | error e => simp [hs, Except.map] at hu
    | ok cur =>
      rw [hs] at hu
      cases hu
      rw [key_reported, key_of_get? (base_eq_ok_iff.mp hs).1]
  · change s'.updateStatus t = _
    rw [updateStatus, base_congr hs']
    cases s.base t with
    | error e => rfl
    | ok cur => rfl

theorem Places.of_error {e : StoreError} (h : Places key f) (hs : f s = .error e)
    (hsame : s₀.get? key = s.get? key) : f s₀ = .error e := by
  obtain ⟨r, -, hr⟩ := h s
  rw [hr s rfl] at hs
  rw [hr s₀ hsame]
  cases r with
  | error e' => exact hs
  | ok t => cases hs

theorem Places.of_ok (h : Places key f) (hs : f s = .ok (t, s')) :
    t.key = key ∧ s' = s.put t ∧
      ∀ s₀ : Store, s₀.get? key = s.get? key → f s₀ = .ok (t, s₀.put t) := by
  obtain ⟨r, hkey, hr⟩ := h s
  rw [hr s rfl] at hs
  cases r with
  | error e => cases hs
  | ok u =>
    cases hs
    exact ⟨hkey _ rfl, rfl, fun s₀ hs₀ => hr s₀ hs₀⟩

theorem Places.frame (h : Places key f) (hs : f s = .ok (t, s')) (hk : k ≠ key) :
    s'.get? k = s.get? k := by
  obtain ⟨hkey, rfl, -⟩ := h.of_ok hs
  rw [get?_put, hkey, if_neg hk]

/-- A write as an action, with the store as it was if the write is refused. -/
def attempt (f : Store → Except StoreError (Task × Store)) :
    StateM Store (Except StoreError Task) := fun s =>
  match f s with
  | .ok (t, s) => (.ok t, s)
  | .error e => (.error e, s)

theorem Confined.after_put {a : StateM Store α} (h : Confined key a) (ht : t.key = key) :
    Confined key fun s => a (s.put t) where
  frame s k hk := by rw [h.frame (s.put t) k hk, get?_put, ht, if_neg hk]
  answer s s' _ := h.answer _ _ (by simp only [get?_put, ht, if_true])
  effect s s' _ := h.effect _ _ (by simp only [get?_put, ht, if_true])

theorem Places.confined (h : Places key f) : Confined key (attempt f) := by
  refine .of_found fun s => ?_
  cases hs : f s with
  | error e =>
    refine ⟨_, .pure key (.error e), fun s' hs' => ?_⟩
    rw [attempt, h.of_error hs hs']
    rfl
  | ok written =>
    obtain ⟨hkey, -, hwrites⟩ := h.of_ok hs
    refine ⟨_, (Confined.pure key (.ok written.1)).after_put hkey, fun s' hs' => ?_⟩
    rw [attempt, hwrites s' hs']
    rfl

/-- A write of any kind by anyone of the task that is filed under `key`. -/
def WriteAt (key : String) (s s' : Store) : Prop :=
  ∃ incoming t, incoming.key = key ∧ (s.create incoming = .ok (t, s') ∨
    s.update incoming = .ok (t, s') ∨ s.updateStatus incoming = .ok (t, s'))

theorem Write.exists_writeAt (h : Write s s') : ∃ key, WriteAt key s s' := by
  obtain ⟨incoming, t, hwrite⟩ := h
  exact ⟨incoming.key, incoming, t, rfl, hwrite⟩

theorem WriteAt.frame (h : WriteAt key s s') (hk : k ≠ key) : s'.get? k = s.get? k := by
  obtain ⟨incoming, t, rfl, hcreate | hupdate | hstatus⟩ := h
  · exact (places_create incoming).frame hcreate hk
  · exact (places_update incoming).frame hupdate hk
  · exact (places_updateStatus incoming).frame hstatus hk

theorem Places.get?_eq (h : Places key f) (hs : f s = .ok (t, s'))
    (hsame : s₀.get? key = s.get? key) :
    f s₀ = .ok (t, s₀.put t) ∧ (s₀.put t).get? key = s'.get? key := by
  obtain ⟨hkey, rfl, hwrites⟩ := h.of_ok hs
  refine ⟨hwrites s₀ hsame, ?_⟩
  simp only [get?_put, hkey, if_true]

/-- The same write can be made in any store with the same task there. -/
theorem WriteAt.mirror (h : WriteAt key s s') (hsame : s₀.get? key = s.get? key) :
    ∃ s₀', WriteAt key s₀ s₀' ∧ s₀'.get? key = s'.get? key := by
  obtain ⟨incoming, t, rfl, hwrite⟩ := h
  rcases hwrite with hcreate | hupdate | hstatus
  · obtain ⟨hwrite, hleft⟩ := (places_create incoming).get?_eq hcreate hsame
    exact ⟨_, ⟨incoming, t, rfl, .inl hwrite⟩, hleft⟩
  · obtain ⟨hwrite, hleft⟩ := (places_update incoming).get?_eq hupdate hsame
    exact ⟨_, ⟨incoming, t, rfl, .inr (.inl hwrite)⟩, hleft⟩
  · obtain ⟨hwrite, hleft⟩ := (places_updateStatus incoming).get?_eq hstatus hsame
    exact ⟨_, ⟨incoming, t, rfl, .inr (.inr hwrite)⟩, hleft⟩

end Store

/-- The key of the task that is to be written, which is the only one that a write looks at. -/
def Submission.key : Submission → String
  | spec t | status t => t.key

theorem Submission.places (w : Submission) : Store.Places w.key w.run := by
  cases w with
  | spec t => exact Store.places_update t
  | status t => exact Store.places_updateStatus t

namespace Call
variable {key : String} {c : Call α} {s s₀ : Store}

/-- What is left of the call looks at no task but the one at `key`, and writes no other. -/
inductive Confined (key : String) : Call α → Prop
  | done (a : α) : Confined key (.done a)
  | read {next : Store → Call α}
      (hsame : ∀ s s' : Store, s'.get? key = s.get? key → next s' = next s)
      (hnext : ∀ s, Confined key (next s)) : Confined key (.read next)
  | write {w : Submission} {next : Except StoreError Task → Call α} (hkey : w.key = key)
      (hnext : ∀ r, Confined key (next r)) : Confined key (.write w next)

theorem Confined.of_step (h : c.Confined key) (s : Store) : (c.step s).1.Confined key := by
  cases h with
  | done a => exact .done a
  | read hsame hnext => exact hnext s
  | @write w next hkey hnext =>
    simp only [step]
    cases w.run s with
    | error e => exact hnext _
    | ok written => exact hnext _

theorem Confined.frame_step (h : c.Confined key) (s : Store) {k : String} (hk : k ≠ key) :
    ((c.step s).2.getD s).get? k = s.get? k := by
  cases h with
  | done a => rfl
  | read hsame hnext => rfl
  | @write w next hkey hnext =>
    simp only [step]
    cases hwrite : w.run s with
    | error e => rfl
    | ok written => exact w.places.frame hwrite (hkey ▸ hk)

/-- Two stores with one task at `key` let the call go on in one way. -/
theorem Confined.step_congr (h : c.Confined key) (hsame : s₀.get? key = s.get? key) :
    (c.step s₀).1 = (c.step s).1 ∧
      ((c.step s₀).2.getD s₀).get? key = ((c.step s).2.getD s).get? key := by
  cases h with
  | done a => exact ⟨rfl, hsame⟩
  | read hreads hnext => exact ⟨hreads s s₀ hsame, hsame⟩
  | @write w next hkey hnext =>
    subst hkey
    simp only [step]
    cases hwrite : w.run s with
    | error e =>
      rw [w.places.of_error hwrite hsame]
      exact ⟨rfl, hsame⟩
    | ok written =>
      obtain ⟨hwrites, hleft⟩ := w.places.get?_eq hwrite hsame
      rw [hwrites]
      exact ⟨rfl, hleft⟩

theorem Confined.run (h : c.Confined key) : Store.Confined key c.run := by
  induction h with
  | done a => exact .pure key a
  | @read next hreads _ ih =>
    refine .of_found fun s => ⟨(next s).run, ih s, fun s' hs' => ?_⟩
    rw [Call.run, hreads s s' hs']
  | @write w next hkey _ ih =>
    subst hkey
    refine .of_found fun s => ?_
    cases hwrite : w.run s with
    | error e =>
      refine ⟨(next (.error e)).run, ih _, fun s' hs' => ?_⟩
      simp only [Call.run, w.places.of_error hwrite hs']
    | ok written =>
      obtain ⟨hkey, -, hwrites⟩ := w.places.of_ok hwrite
      refine ⟨_, (ih (.ok written.1)).after_put hkey, fun s' hs' => ?_⟩
      simp only [Call.run, hwrites s' hs']

end Call

theorem Store.get_congr {s s' : Store} {key : String} (h : s'.get? key = s.get? key) :
    s'.get key = s.get key := by
  rw [Store.get, Store.get, h]

namespace Ballot

theorem propose_congr (b : Ballot) {s s' : Store} (h : s'.get? b.key = s.get? b.key) :
    b.propose s' = b.propose s := by
  rw [propose, propose, Store.get_congr h]

theorem key_of_propose {b : Ballot} {s : Store} {proposed : Task}
    (h : b.propose s = .ok proposed) : proposed.key = b.key := by
  obtain ⟨read, hread, hproposes⟩ := propose_eq_ok_iff.mp h
  rw [hproposes.key_eq, Store.key_of_get? hread]

theorem confined_callWith (b : Ballot) (retries left : Nat) :
    (b.callWith retries left).Confined b.key := by
  induction left with
  | zero => exact .done _
  | succ left ih =>
    have hsettle (r : Except StoreError Task) : (b.settle retries left r).Confined b.key := by
      cases r with
      | ok t => exact .done _
      | error e =>
        cases e with
        | conflict => exact ih
        | notFound => exact .done _
        | alreadyExists => exact .done _
    rw [callWith_succ]
    refine .read (fun s s' hsame => ?_) fun s => ?_
    · unfold offer
      rw [b.propose_congr hsame]
    · unfold offer
      cases hpropose : b.propose s with
      | error e => exact .done _
      | ok proposed => exact .write (key_of_propose hpropose) hsettle

end Ballot

namespace Pass

theorem confined_call (key : String) (now : Instant) (limit : Span) :
    (call key now limit).Confined key := by
  rw [call_eq]
  refine .read (fun s s' hsame => ?_) fun s => ?_
  · unfold offer
    rw [Store.get_congr hsame]
  · unfold offer
    cases hget : s.get key with
    | error e => exact .done _
    | ok t =>
      have hkey : (plan t now limit).task.key = key :=
        (keeps_plan t now limit).key_eq.trans (Store.key_of_get? (Store.get_eq_ok_iff.mp hget))
      have hsettle (r : Except StoreError Task) :
          (settle (plan t now limit) now limit r).Confined key := by
        cases r with
        | error e => exact .done _
        | ok t => exact .done _
      simp only
      split
      · exact .write hkey hsettle
      · exact .done _

end Pass

theorem Job.confined_call (j : Job) : j.call.Confined j.key := by
  cases j with
  | vote b retries => exact b.confined_callWith retries _
  | pass key now limit => exact Pass.confined_call key now limit

/-- What can be done to the task that is filed under one key, by those who act alone. -/
inductive Store.Operation
  | create (t : Task)
  | get (key : String)
  | update (t : Task)
  | updateStatus (t : Task)
  | vote (b : Ballot) (retries : Nat)
  | pass (key : String) (now : Instant) (limit : Span)

namespace Store.Operation

def key : Operation → String
  | create t | update t | updateStatus t => t.key
  | get key | pass key .. => key
  | vote b _ => b.key

abbrev Answer : Operation → Type
  | create _ | get _ | update _ | updateStatus _ => Except StoreError Task
  | vote .. => Except CastError Task
  | pass .. => Except StoreError Pass.Report

def run : (o : Operation) → StateM Store o.Answer
  | create t => attempt (·.create t)
  | get key => fun s => (s.get key, s)
  | update t => attempt (·.update t)
  | updateStatus t => attempt (·.updateStatus t)
  | vote b retries => b.cast retries
  | pass key now limit => Pass.run key now limit

theorem confined (o : Operation) : Confined o.key o.run := by
  cases o with
  | create t => exact (places_create t).confined
  | get key =>
    constructor
    case frame => exact fun _ _ _ => rfl
    case answer => exact fun s s' h => get_congr h
    case effect => exact fun _ _ h => h
  | update t => exact (places_update t).confined
  | updateStatus t => exact (places_updateStatus t).confined
  | vote b retries =>
    have hcall := (Job.confined_call (.vote b retries)).run
    rw [show (Job.vote b retries).call.run = b.cast retries from b.run_call retries] at hcall
    exact hcall
  | pass key now limit =>
    have hcall := (Pass.confined_call key now limit).run
    rw [Pass.run_call] at hcall
    exact hcall

end Store.Operation

/-- A client but for what it has written. -/
def Client.sight (c : Client) : (j : Job) × Call j.Result := ⟨c.job, c.call⟩

namespace Traffic
variable {jobs : Job → Prop} {key : String} {w w' w₀ : Traffic} {s s₀ : Store}

/-- Every client is confined to the task of its job. -/
def Orderly (w : Traffic) : Prop := ∀ c ∈ w.clients, c.call.Confined c.job.key

theorem Step.orderly {others : Store → Store → Prop} (h : Step jobs others w w')
    (hw : w.Orderly) : w'.Orderly := by
  intro c hc
  rcases h.client_cases hc with ⟨j, -, rfl⟩ | ⟨d, hd, rfl, -⟩ | hold
  · exact j.confined_call
  · exact (hw d hd).of_step w.store
  · exact hw c hold

/-- In `w₀` there is what `w` has to do with `key`, and nothing else. -/
structure Mirrors (key : String) (w w₀ : Traffic) : Prop where
  stored : w₀.store.get? key = w.store.get? key
  clients : w₀.clients.map Client.sight =
    (w.clients.filter fun c => c.job.key = key).map Client.sight

theorem Mirrors.of_elsewhere {store : Store} {clients : List Client} (h : w.Mirrors key w₀)
    (hstore : store.get? key = w.store.get? key)
    (hclients : (clients.filter fun c => c.job.key = key) =
      w.clients.filter fun c => c.job.key = key) : Mirrors key ⟨store, clients⟩ w₀ :=
  ⟨h.stored.trans hstore.symm, by rw [h.clients, hclients]⟩

/-- The clients of a key, with one of the clients moved. -/
theorem Mirrors.exists_split {before after : List Client} {c : Client}
    (h : w.Mirrors key w₀) (hclients : w.clients = before ++ c :: after) (hc : c.job.key = key) :
    ∃ before₀ c₀ after₀, w₀.clients = before₀ ++ c₀ :: after₀ ∧ c₀.sight = c.sight ∧
      before₀.map Client.sight = (before.filter fun c => c.job.key = key).map Client.sight ∧
      after₀.map Client.sight = (after.filter fun c => c.job.key = key).map Client.sight := by
  have hsights := h.clients
  rw [hclients, List.filter_append, List.filter_cons_of_pos (by simpa using hc), List.map_append,
    List.map_cons] at hsights
  obtain ⟨before₀, rest₀, hsplit, hbefore, hrest⟩ := List.map_eq_append_iff.mp hsights
  obtain ⟨c₀, after₀, rfl, hc₀, hafter⟩ := List.map_eq_cons_iff.mp hrest
  exact ⟨before₀, c₀, after₀, hsplit, hc₀, hbefore, hafter⟩

/-- A step at the key can be made in the mirror; a step elsewhere is not seen there. -/
theorem Step.mirror (hstep : Step jobs Store.Write w w') (hw : w.Orderly)
    (h : w.Mirrors key w₀) :
    ∃ w₀', Run (fun j => jobs j ∧ j.key = key) (Store.WriteAt key) w₀ w₀' ∧
      w'.Mirrors key w₀' := by
  cases hstep with
  | arrive j hj =>
    by_cases hkey : j.key = key
    · refine ⟨_, .single (.arrive w₀ j ⟨hj, hkey⟩), h.stored, ?_⟩
      rw [List.map_append, List.filter_append, List.map_append, h.clients]
      simp [Client.start, hkey]
    · exact ⟨w₀, .refl, h.of_elsewhere rfl (by simp [Client.start, hkey])⟩
  | act i c hc =>
    have hcall := hw c (List.mem_of_getElem? hc)
    obtain ⟨before, after, hclients, hset⟩ : ∃ before after, w.clients = before ++ c :: after ∧
        w.clients.set i (c.step w.store).1 = before ++ (c.step w.store).1 :: after := by
      obtain ⟨hi, rfl⟩ := List.getElem?_eq_some_iff.mp hc
      obtain ⟨before, after, hclients, -, hset⟩ := List.exists_of_set hi
      exact ⟨before, after, hclients, hset⟩
    by_cases hkey : c.job.key = key
    · obtain ⟨before₀, c₀, after₀, hclients₀, hsight, hbefore, hafter⟩ :=
        h.exists_split hclients hkey
      obtain ⟨job, call, landed⟩ := c
      obtain ⟨job₀, call₀, landed₀⟩ := c₀
      cases hsight
      subst hkey
      obtain ⟨hmoves, hleft⟩ := hcall.step_congr h.stored
      have hc₀ : w₀.clients[before₀.length]? = some ⟨job, call, landed₀⟩ := by simp [hclients₀]
      refine ⟨_, .single (.act w₀ before₀.length _ hc₀), hleft, ?_⟩
      rw [hset, hclients₀]
      simp [Client.step, Client.sight, hbefore, hafter, hmoves]
    · refine ⟨w₀, .refl, h.of_elsewhere (hcall.frame_step w.store (Ne.symm hkey)) ?_⟩
      rw [hset, hclients]
      simp [Client.step, hkey]
  | write s hs =>
    obtain ⟨k, hwrite⟩ := hs.exists_writeAt
    by_cases hkey : k = key
    · subst hkey
      obtain ⟨s₀, hwrite₀, hleft⟩ := hwrite.mirror h.stored
      exact ⟨_, .single (.write w₀ s₀ hwrite₀), hleft, h.clients⟩
    · exact ⟨w₀, .refl, h.of_elsewhere (hwrite.frame (Ne.symm hkey)) rfl⟩

/-- All that is seen at one key comes from a run of what is done at that key alone. -/
theorem Run.mirror (hrun : Run jobs Store.Write (start s) w)
    (hsame : s₀.get? key = s.get? key) :
    ∃ w₀, Run (fun j => jobs j ∧ j.key = key) (Store.WriteAt key) (start s₀) w₀ ∧
      w.Mirrors key w₀ := by
  suffices h : w.Orderly ∧ ∃ w₀, Run (fun j => jobs j ∧ j.key = key) (Store.WriteAt key)
      (start s₀) w₀ ∧ w.Mirrors key w₀ from h.2
  induction hrun with
  | refl => exact ⟨fun _ hc => absurd hc List.not_mem_nil, start s₀, .refl, hsame, rfl⟩
  | tail _ hstep ih =>
    obtain ⟨horderly, w₁, hrun₁, hmirrors⟩ := ih
    obtain ⟨w₂, hrun₂, hmirrors'⟩ := hstep.mirror horderly hmirrors
    exact ⟨hstep.orderly horderly, w₂, hrun₁.trans hrun₂, hmirrors'⟩

end Traffic
/-- Whatever is filed under another key makes no difference to what is done. -/
theorem Store.Operation.blind (o : Store.Operation) {key : String} (hkey : o.key ≠ key)
    {s s' : Store} (hsame : ∀ k, k ≠ key → s'.get? k = s.get? k) :
    (o.run s').1 = (o.run s).1 ∧ ∀ k, k ≠ key → (o.run s').2.get? k = (o.run s).2.get? k := by
  refine ⟨o.confined.answer _ _ (hsame _ hkey), fun k hk => ?_⟩
  by_cases heq : k = o.key
  · rw [heq, o.confined.effect _ _ (hsame _ hkey)]
  · rw [o.confined.frame _ _ heq, o.confined.frame _ _ heq, hsame k hk]

namespace Metadata

/-- Two tasks of different identities are filed under one key if and only if the slash after the
namespace of one is one within the name of the other. If not, then whatever is done to the one, by
its key or as a write of it, leaves the other as it was, and answers and does the same whatever is
filed as the other; and what comes to be of the one in the midst of other writers, votes and passes
comes of what they do to the one alone. But if so, who asks for the one is given the other: it
cannot be created, it is read as the other, and an update of it replaces the other. -/
theorem apart_unless_straddling (m n : Metadata) (hother : m.identity ≠ n.identity) :
    (m.key = n.key ↔ m.Straddles n ∨ n.Straddles m) ∧
    (¬(m.Straddles n ∨ n.Straddles m) →
      (∀ (o : Store.Operation) (s : Store), o.key = n.key → (o.run s).2.get? m.key = s.get? m.key ∧
        ∀ s', (∀ k, k ≠ m.key → s'.get? k = s.get? k) → (o.run s').1 = (o.run s).1 ∧
          ∀ k, k ≠ m.key → (o.run s').2.get? k = (o.run s).2.get? k) ∧
      ∀ jobs s w s₀, Traffic.Run jobs Store.Write (.start s) w →
        (∀ k, k ≠ m.key → s₀.get? k = s.get? k) →
        ∃ w₀, Traffic.Run (fun j => jobs j ∧ j.key = n.key) (Store.WriteAt n.key) (.start s₀) w₀ ∧
          w.Mirrors n.key w₀) ∧
    (m.Straddles n ∨ n.Straddles m →
      ∀ (s : Store) (t : Task), s.get? m.key = some t → s.get n.key = .ok t ∧
        ∀ u : Task, u.metadata.identity = n.identity →
          s.create u = .error (.alreadyExists n.key) ∧
          (u.metadata.version = t.metadata.version →
            s.update u = .ok (Store.edited t u, s.put (Store.edited t u)))) := by
  have hkeys := key_eq_iff hother
  refine ⟨hkeys, fun hapart => ?_, fun hstraddles s t ht => ?_⟩
  · have hne : n.key ≠ m.key := fun h => hapart (hkeys.mp h.symm)
    refine ⟨fun o s ho => ⟨?_, fun s' hsame => ?_⟩, fun jobs s w s₀ hrun hsame => ?_⟩
    · exact o.confined.frame s m.key (ho ▸ hne.symm)
    · exact o.blind (ho ▸ hne) hsame
    · exact hrun.mirror (hsame n.key hne)
  · rw [hkeys.mpr hstraddles] at ht
    refine ⟨Store.get_eq_ok_iff.mpr ht, fun u hu => ?_⟩
    have hkey : u.key = n.key := key_eq_of_identity_eq hu
    refine ⟨?_, fun hversion => ?_⟩
    · rw [Store.create, hkey, ht]
    · exact Store.update_eq_ok_iff.mpr ⟨t, hkey ▸ ht, hversion, rfl, rfl⟩

/-- A gate that is kept in a namespace. -/
def gateIn (space name : String) : Task where
  metadata := { space := some space, name }
  spec := { approvers := [{ name := "ann" }], required := 1 }

theorem gates_of_two_spaces_are_apart :
    ((Store.Operation.create (gateIn "dev" "gate")).run (Store.empty.put (gateIn "ops" "gate"))).1 =
      .ok { gateIn "dev" "gate" with metadata.version := 1 } ∧
    (Store.empty.put (gateIn "ops" "ci/gate")).create (gateIn "ops/ci" "gate") =
      .error (.alreadyExists "ops/ci/gate") := by
  constructor
  · obtain ⟨hkeys, hapart, -⟩ := apart_unless_straddling (gateIn "ops" "gate").metadata
      (gateIn "dev" "gate").metadata (by decide)
    obtain ⟨hdeeds, -⟩ := hapart fun h => absurd (hkeys.mpr h) (by decide)
    obtain ⟨-, hblind⟩ := hdeeds (.create (gateIn "dev" "gate")) .empty rfl
    refine (hblind (Store.empty.put (gateIn "ops" "gate")) fun k hk => ?_).1
    rw [Store.get?_put]
    exact if_neg hk
  · obtain ⟨hkeys, -, hone⟩ := apart_unless_straddling (gateIn "ops" "ci/gate").metadata
      (gateIn "ops/ci" "gate").metadata (by decide)
    have hstored : (Store.empty.put (gateIn "ops" "ci/gate")).get?
        (gateIn "ops" "ci/gate").metadata.key = some (gateIn "ops" "ci/gate") := by
      rw [Store.get?_put]
      exact if_pos rfl
    exact ((hone (hkeys.mp (by decide)) _ _ hstored).2 (gateIn "ops/ci" "gate") rfl).1

/-- The gate of the namespace within cannot be created, because the gate with a slash in its name
exists. -/
theorem slash_in_name_takes_place :
    (gateIn "ops" "ci/gate").metadata.identity ≠ (gateIn "ops/ci" "gate").metadata.identity ∧
    (∃ t s, Store.empty.create (gateIn "ops/ci" "gate") = .ok (t, s)) ∧
    ∃ t s, Store.empty.create (gateIn "ops" "ci/gate") = .ok (t, s) ∧
      s.create (gateIn "ops/ci" "gate") = .error (.alreadyExists "ops/ci/gate") ∧
      s.get (gateIn "ops/ci" "gate").key = .ok t :=
  ⟨by decide, ⟨_, _, rfl⟩, _, _, rfl, rfl, rfl⟩

end Metadata
end Quorum
