import Quorum.Proofs.Attended

/-!
# A round of passes

A pass reads no task but its own and writes no other (`Store.Confined`, `Pass.confined_runUnless`).
In a round of such actions, one for each key, every action therefore answers and leaves behind what
it would alone, in whatever order the keys come (`Store.round_apply`, `Store.round_perm`). So a
round of passes comes to the same in any order, also when some of its writes fail, and those fail
alone (`Pass.rounds_are_independent`).
-/
namespace Quorum

namespace Store
variable {act : String → StateM Store α} {s : Store} {key : String} {keys keys' : List String}

theorem ext_get? {s s' : Store} (h : ∀ key, s.get? key = s'.get? key) : s = s' := by
  have htasks : s.tasks = s'.tasks := SortedMap.ext_get? h
  cases s
  cases s'
  cases htasks
  rfl

theorem mem_keys : key ∈ s.tasks.keys ↔ ∃ t, s.get? key = some t := by
  simp only [SortedMap.keys, List.mem_map, Prod.exists, exists_and_right, exists_eq_right,
    SortedMap.mem_entries_iff]
  rfl

theorem keys_sorted (s : Store) : s.tasks.keys.Pairwise (· < ·) :=
  List.pairwise_map.mpr s.tasks.sorted

theorem keys_nodup (s : Store) : s.tasks.keys.Nodup :=
  s.keys_sorted.imp fun {k l} (hlt : k < l) (heq : k = l) => String.lt_irrefl l (heq ▸ hlt)

/-- An action that reads no task but the one at `key`, and writes no other. -/
structure Confined (key : String) (a : StateM Store α) : Prop where
  frame : ∀ s k, k ≠ key → (a s).2.get? k = s.get? k
  answer : ∀ s s', s.get? key = s'.get? key → (a s).1 = (a s').1
  effect : ∀ s s', s.get? key = s'.get? key → (a s).2.get? key = (a s').2.get? key

namespace Confined

theorem pure (key : String) (x : α) : Confined key (pure x : StateM Store α) where
  frame _ _ _ := rfl
  answer _ _ _ := rfl
  effect _ _ h := h

theorem map {a : StateM Store α} (f : α → β) (h : Confined key a) : Confined key (f <$> a) where
  frame := h.frame
  answer s s' heq := congrArg f (h.answer s s' heq)
  effect := h.effect

/-- What an action does may depend on the task that it finds. -/
theorem of_found {a : StateM Store α}
    (h : ∀ s : Store, ∃ b : StateM Store α, Confined key b ∧
      ∀ s' : Store, s'.get? key = s.get? key → a s' = b s') :
    Confined key a where
  frame s k hk := by
    obtain ⟨b, hb, heq⟩ := h s
    rw [heq s rfl, hb.frame s k hk]
  answer s s' hfound := by
    obtain ⟨b, hb, heq⟩ := h s
    rw [heq s rfl, heq s' hfound.symm, hb.answer s s' hfound]
  effect s s' hfound := by
    obtain ⟨b, hb, heq⟩ := h s
    rw [heq s rfl, heq s' hfound.symm, hb.effect s s' hfound]

end Confined

/-- Does the action of each key in turn, collecting the answers. Nothing that one key answers has a
say in what is done for the next. -/
def round (act : String → StateM Store α) (keys : List String) : StateM Store (List (String × α)) :=
  keys.mapM fun key => do return (key, ← act key)

theorem round_cons (act : String → StateM Store α) (key : String) (keys : List String)
    (s : Store) :
    round act (key :: keys) s =
      ((key, (act key s).1) :: (round act keys (act key s).2).1,
        (round act keys (act key s).2).2) := by
  rw [round, List.mapM_cons]
  rfl

/-- In a round, each action answers as it does alone, and leaves behind what it does alone. -/
theorem round_apply (hact : ∀ key, Confined key (act key)) (hkeys : keys.Nodup) (s : Store) :
    (round act keys s).1 = keys.map (fun key => (key, (act key s).1)) ∧
      ∀ k, (round act keys s).2.get? k = if k ∈ keys then (act k s).2.get? k else s.get? k := by
  -- the actions still to come find their tasks as they were
  induction keys generalizing s with
  | nil => exact ⟨rfl, fun _ => rfl⟩
  | cons key keys ih =>
    obtain ⟨hkey, hkeys⟩ := List.nodup_cons.mp hkeys
    obtain ⟨hanswers, hleft⟩ := ih hkeys (act key s).2
    have hfound (k : String) (hk : k ∈ keys) : (act key s).2.get? k = s.get? k :=
      (hact key).frame s k (ne_of_mem_of_not_mem hk hkey)
    rw [round_cons]
    constructor
    · rw [List.map_cons, hanswers]
      refine congrArg _ (List.map_congr_left fun k hk => ?_)
      rw [(hact k).answer _ _ (hfound k hk)]
    · intro k
      rw [hleft]
      by_cases hk : k ∈ keys
      · rw [if_pos hk, if_pos (List.mem_cons_of_mem key hk), (hact k).effect _ _ (hfound k hk)]
      · rw [if_neg hk]
        by_cases heq : k = key
        · rw [heq, if_pos List.mem_cons_self]
        · rw [if_neg (by simp [heq, hk]), (hact key).frame s k heq]

/-- The order of a round shows in the order of its answers alone. -/
theorem round_perm (hact : ∀ key, Confined key (act key)) (hkeys : keys.Nodup)
    (hperm : keys'.Perm keys) (s : Store) :
    (round act keys' s).1.Perm (round act keys s).1 ∧
      (round act keys' s).2 = (round act keys s).2 := by
  obtain ⟨hanswers, hleft⟩ := round_apply hact hkeys s
  obtain ⟨hanswers', hleft'⟩ := round_apply hact (hperm.nodup_iff.mpr hkeys) s
  constructor
  · rw [hanswers, hanswers']
    exact hperm.map _
  · refine ext_get? fun k => ?_
    rw [hleft, hleft']
    simp only [hperm.mem_iff]

end Store

namespace Pass
variable {fault : Task → Option StoreError} {s : Store} {t : Task} {key : String} {now : Instant}
  {limit : Span} {e : StoreError}

/-- A status write, unless it is made to fail, with a conflict for the tasks of some set, say. -/
def writeUnless (fault : Task → Option StoreError) (t : Task) :
    StateM Store (Except StoreError Task) :=
  match fault t with
  | some e => pure (.error e)
  | none => writeStatus t

/-- The pass when nobody else writes, but some writes fail. -/
def runUnless (fault : Task → Option StoreError) (key : String) (now : Instant) (limit : Span) :
    StateM Store (Except StoreError Report) :=
  runWith get (writeUnless fault) key now limit

theorem writeUnless_of_none (h : fault t = none) : writeUnless fault t = writeStatus t := by
  rw [writeUnless, h]

theorem writeUnless_of_some (h : fault t = some e) : writeUnless fault t = pure (.error e) := by
  rw [writeUnless, h]

theorem writeStatus_of_error (h : s.base t = .error e) : writeStatus t s = (.error e, s) := by
  rw [writeStatus, Store.updateStatus, h]
  rfl

theorem writeStatus_of_ok {cur : Task} (h : s.base t = .ok cur) :
    writeStatus t s = (.ok (Store.reported cur t), s.put (Store.reported cur t)) := by
  rw [writeStatus, Store.updateStatus, h]
  rfl

theorem confined_writeStatus (t : Task) : Store.Confined t.key (writeStatus t) := by
  have hbase (s s' : Store) (h : s.get? t.key = s'.get? t.key) : s'.base t = s.base t := by
    rw [Store.base, Store.base, h]
  have hkey {s : Store} {cur : Task} (h : s.base t = .ok cur) :
      (Store.reported cur t).key = t.key := by
    rw [Store.key_reported, Store.key_of_get? (Store.base_eq_ok_iff.mp h).1]
  constructor
  case frame =>
    intro s k hk
    cases hs : s.base t with
    | error e => rw [writeStatus_of_error hs]
    | ok cur => rw [writeStatus_of_ok hs, Store.get?_put, hkey hs, if_neg hk]
  case answer =>
    intro s s' h
    cases hs : s.base t with
    | error e => rw [writeStatus_of_error hs, writeStatus_of_error ((hbase s s' h).trans hs)]
    | ok cur => rw [writeStatus_of_ok hs, writeStatus_of_ok ((hbase s s' h).trans hs)]
  case effect =>
    intro s s' h
    cases hs : s.base t with
    | error e => rw [writeStatus_of_error hs, writeStatus_of_error ((hbase s s' h).trans hs), h]
    | ok cur =>
      rw [writeStatus_of_ok hs, writeStatus_of_ok ((hbase s s' h).trans hs)]
      simp only [Store.get?_put, hkey hs, if_true]

theorem confined_writeUnless (fault : Task → Option StoreError) (t : Task) :
    Store.Confined t.key (writeUnless fault t) := by
  cases h : fault t with
  | none =>
    rw [writeUnless_of_none h]
    exact confined_writeStatus t
  | some e =>
    rw [writeUnless_of_some h]
    exact .pure t.key _

theorem confined_runUnless (fault : Task → Option StoreError) (key : String) (now : Instant)
    (limit : Span) : Store.Confined key (runUnless fault key now limit) := by
  unfold runUnless
  refine .of_found fun s => ?_
  cases ht : s.get? key with
  | none => exact ⟨_, .pure key (.error (.notFound key)), fun s' hs' => runWith_of_absent hs'⟩
  | some t =>
    have hkey : (plan t now limit).task.key = key :=
      (keeps_plan t now limit).key_eq.trans (Store.key_of_get? ht)
    cases hchanged : (plan t now limit).changed with
    | true =>
      have hwrite := confined_writeUnless fault (plan t now limit).task
      rw [hkey] at hwrite
      exact ⟨_, hwrite.map _, fun s' hs' => runWith_of_changed hs' hchanged⟩
    | false =>
      exact ⟨_, .pure key (.ok ((plan t now limit).report now limit)),
        fun s' hs' => runWith_of_unchanged hs' hchanged⟩

/-- A pass whose write fails changes nothing, and the failure is its answer. -/
theorem runUnless_of_fault (ht : s.get? key = some t)
    (hchanged : (plan t now limit).changed = true)
    (hfault : fault (plan t now limit).task = some e) :
    runUnless fault key now limit s = (.error e, s) := by
  rw [runUnless, runWith_of_changed ht hchanged, writeUnless_of_some hfault]
  rfl

/-- A pass whose write does not fail goes as if none did. -/
theorem runUnless_of_spared (ht : s.get? key = some t)
    (hspared : (plan t now limit).changed = false ∨ fault (plan t now limit).task = none) :
    runUnless fault key now limit s = run key now limit s := by
  rw [runUnless, run]
  cases hchanged : (plan t now limit).changed with
  | false => rw [runWith_of_unchanged ht hchanged, runWith_of_unchanged ht hchanged]
  | true =>
    have hfault := hspared.resolve_left (by simp [hchanged])
    rw [runWith_of_changed ht hchanged, runWith_of_changed ht hchanged, writeUnless_of_none hfault]

/-- What a round of passes over the tasks of `s` comes to. -/
structure Round (fault : Task → Option StoreError) (now : Instant) (limit : Span) (s : Store)
    (results : List (String × Except StoreError Report)) (s' : Store) : Prop where
  /-- There is one result for each task, by key. -/
  sorted : (results.map Prod.fst).Pairwise (· < ·)
  mem_keys : ∀ key, key ∈ results.map Prod.fst ↔ ∃ t, s.get? key = some t
  /-- Each pass does what it does alone. -/
  alone : ∀ key result, (key, result) ∈ results →
    ∃ s₁, runUnless fault key now limit s = (result, s₁) ∧ s'.get? key = s₁.get? key
  absent : ∀ key, s.get? key = none → s'.get? key = none
  /-- A pass whose write fails leaves its task as it was. -/
  failed : ∀ key t e, s.get? key = some t → (plan t now limit).changed = true →
    fault (plan t now limit).task = some e → (key, .error e) ∈ results ∧ s'.get? key = some t
  /-- To all others, it is as if no write failed. -/
  spared : ∀ key t, s.get? key = some t →
    (plan t now limit).changed = false ∨ fault (plan t now limit).task = none →
    ∃ report s₁, run key now limit s = (.ok report, s₁) ∧ (key, .ok report) ∈ results ∧
      s'.get? key = s₁.get? key

theorem runAllWith_eq (fault : Task → Option StoreError) (now : Instant) (limit : Span)
    (s : Store) :
    runAllWith get (writeUnless fault) now limit s =
      Store.round (fun key => runUnless fault key now limit) s.tasks.keys s := rfl

/-- A round whose passes go as they do alone. -/
theorem Round.of_alone {results : List (String × Except StoreError Report)} {s' : Store}
    (hresults : results = s.tasks.keys.map fun key => (key, (runUnless fault key now limit s).1))
    (hleft : ∀ key, s'.get? key = (runUnless fault key now limit s).2.get? key) :
    Round fault now limit s results s' := by
  have hkeys : results.map Prod.fst = s.tasks.keys := by
    rw [hresults, List.map_map]
    exact List.map_id _
  have hanswer {key : String} {t : Task} {out : Except StoreError Report × Store}
      (ht : s.get? key = some t) (hrun : runUnless fault key now limit s = out) :
      (key, out.1) ∈ results ∧ s'.get? key = out.2.get? key := by
    rw [← hrun, hleft, hresults]
    exact ⟨List.mem_map.mpr ⟨key, Store.mem_keys.mpr ⟨t, ht⟩, rfl⟩, rfl⟩
  constructor
  case sorted =>
    rw [hkeys]
    exact s.keys_sorted
  case mem_keys =>
    intro key
    rw [hkeys, Store.mem_keys]
  case alone =>
    intro key result hresult
    rw [hresults, List.mem_map] at hresult
    obtain ⟨key, -, hpair⟩ := hresult
    obtain ⟨rfl, rfl⟩ := Prod.mk.inj hpair
    exact ⟨_, rfl, hleft key⟩
  case absent =>
    intro key ht
    rw [hleft, runUnless, runWith_of_absent ht, ht]
  case failed =>
    intro key t e ht hchanged hfault
    obtain ⟨hresult, hstays⟩ := hanswer ht (runUnless_of_fault ht hchanged hfault)
    exact ⟨hresult, hstays.trans ht⟩
  case spared =>
    intro key t ht hspared
    obtain ⟨s₁, hrun, -, -⟩ := run_of_stored now limit ht
    obtain ⟨hresult, hsame⟩ := hanswer ht ((runUnless_of_spared ht hspared).trans hrun)
    exact ⟨_, s₁, hrun, hresult, hsame⟩

/-- A round over the stored tasks gives one result for each, by key. Each pass reports and leaves
behind what it does alone, and what fails does so alone. In any other order the passes leave the
same store and give the same results. -/
theorem rounds_are_independent (fault : Task → Option StoreError) (s : Store) (now : Instant)
    (limit : Span) :
    ∃ results s', runAllWith get (writeUnless fault) now limit s = (results, s') ∧
      Round fault now limit s results s' ∧
      ∀ keys, keys.Perm s.tasks.keys →
        ∃ results', Store.round (fun key => runUnless fault key now limit) keys s = (results', s') ∧
          results'.Perm results := by
  have hconfined (key : String) := confined_runUnless fault key now limit
  obtain ⟨hresults, hleft⟩ := Store.round_apply hconfined s.keys_nodup s
  have hperm (keys : List String) (h : keys.Perm s.tasks.keys) :=
    Store.round_perm hconfined s.keys_nodup h s
  rw [runAllWith_eq]
  cases hround : Store.round (fun key => runUnless fault key now limit) s.tasks.keys s with
  | mk results s' =>
    simp only [hround] at hresults hleft hperm
    refine ⟨results, s', rfl, .of_alone hresults fun key => ?_, fun keys h => ?_⟩
    · rw [hleft]
      split
      · rfl
      · next habsent =>
        rw [Store.mem_keys, ← Option.isSome_iff_exists, Option.not_isSome_iff_eq_none] at habsent
        rw [runUnless, runWith_of_absent habsent]
    · obtain ⟨hanswers, hsame⟩ := hperm keys h
      exact ⟨_, Prod.ext rfl hsame, hanswers⟩

def doorTask : Task := { strayTask with metadata.name := "door" }

/-- Another writer has always come first at the gate. -/
def gateJam (t : Task) : Option StoreError :=
  if t.key = "gate" then some (.conflict t.key t.metadata.version (t.metadata.version + 1))
  else none

/-- The pass over the gate fails, the one over the door goes on, and it is the same if the gate
comes first. -/
theorem jam_at_gate_leaves_door_open :
    ∃ results s', runAllWith get (writeUnless gateJam) Draft.epoch Deadline.default
        ((Store.empty.put strayTask).put doorTask) = (results, s') ∧
      ("gate", .error (.conflict "gate" 1 2)) ∈ results ∧ s'.get? "gate" = some strayTask ∧
      (∃ report, ("door", .ok report) ∈ results ∧ report.updated = true) ∧
      ∃ results', Store.round (fun key => runUnless gateJam key Draft.epoch Deadline.default)
        ["gate", "door"] ((Store.empty.put strayTask).put doorTask) = (results', s') := by
  let s := (Store.empty.put strayTask).put doorTask
  have hgate : s.get? "gate" = some strayTask := by
    rw [Store.get?_put, if_neg (by decide), get?_strayTask]
  have hdoor : s.get? "door" = some doorTask := by rw [Store.get?_put, if_pos (by decide)]
  obtain ⟨results, s', hrun, hround, horder⟩ :=
    rounds_are_independent gateJam s Draft.epoch Deadline.default
  have hjam : gateJam (plan strayTask Draft.epoch Deadline.default).task =
      some (.conflict "gate" 1 2) := by
    have hkeeps := keeps_plan strayTask Draft.epoch Deadline.default
    rw [gateJam, hkeeps.key_eq, hkeeps.version_eq]
    rfl
  have hfree : gateJam (plan doorTask Draft.epoch Deadline.default).task = none := by
    rw [gateJam, (keeps_plan doorTask _ _).key_eq]
    rfl
  obtain ⟨hfailed, hstays⟩ := hround.failed "gate" strayTask _ hgate (changed_of_unstarted rfl) hjam
  obtain ⟨report, s₁, hdone, hresult, -⟩ := hround.spared "door" doorTask hdoor (.inr hfree)
  obtain ⟨results', hother, -⟩ := horder ["gate", "door"] (.swap "door" "gate" [])
  obtain ⟨t, ht, rfl, -, -⟩ := exists_of_run hdone
  obtain rfl := Option.some.inj (ht.symm.trans hdoor)
  exact ⟨results, s', hrun, hfailed, hstays, ⟨_, hresult, changed_of_unstarted rfl⟩, results',
    hother⟩

end Pass
end Quorum
