import Quorum.Proofs.Writes

/-!
# The store is a map

`Table.Step` says what a plain map from keys to tasks answers to each request and what it is
afterwards. It leaves no choice (`Table.Step.functional`), and a store whose versions have not run
out takes the same step (`Store.step_serve`), so over any sequence of requests the store gives the
answers of the map and no others (`Store.serves_as_table`).
-/
namespace Quorum

namespace Store

/-- What can be asked of a store. Writes come in three kinds, which differ in what of the incoming
task they take over. -/
inductive Request
  | create (t : Task)
  | get (key : String)
  | update (t : Task)
  | updateStatus (t : Task)
  | list

/-- What a store answers: a task, all tasks, or why there is none. -/
inductive Answer
  | task (t : Task)
  | tasks (ts : List Task)
  | failed (e : StoreError)
deriving DecidableEq

/-- The key and the version of the stored task that a request means to replace. -/
def Request.base? : Request → Option (String × Nat)
  | update t | updateStatus t => some (t.key, t.metadata.version)
  | create _ | get _ | list => none

/-- Whether a request may write the task at `key`. -/
def Request.Writes (key : String) : Request → Prop
  | create t | update t | updateStatus t => t.key = key
  | get _ | list => False

def Answer.isTask : Answer → Bool
  | task _ => true
  | tasks _ | failed _ => false

/-- The answer to a write, and the store that it leaves behind. -/
def answerWrite (s : Store) : Except StoreError (Task × Store) → Answer × Store
  | .ok (t, s') => (.task t, s')
  | .error e => (.failed e, s)

/-- What the store does with a request. A request that fails leaves it as it was. -/
def serve (s : Store) : Request → Answer × Store
  | .create t => s.answerWrite (s.create t)
  | .get key =>
    match s.get key with
    | .ok t => (.task t, s)
    | .error e => (.failed e, s)
  | .update t => s.answerWrite (s.update t)
  | .updateStatus t => s.answerWrite (s.updateStatus t)
  | .list => (.tasks s.list, s)

/-- The answers to a sequence of requests. It is what a caller sees of the store. -/
def answers (s : Store) : List Request → List Answer
  | [] => []
  | r :: rs => (s.serve r).1 :: (s.serve r).2.answers rs

/-- What a sequence of requests leaves behind. -/
def after (s : Store) : List Request → Store
  | [] => s
  | r :: rs => (s.serve r).2.after rs

/-- No request finds a version that cannot be raised. -/
def RoomThrough (s : Store) : List Request → Prop
  | [] => True
  | r :: rs => (∀ key, s.HasRoom key) ∧ (s.serve r).2.RoomThrough rs

end Store

/-- The store as a plain map. It has no order of entries and no bound on versions, so it is what one
would like the store to be. -/
abbrev Table := String → Option Task

namespace Table
variable {m m₁ m₂ : Table} {t stored : Task} {key : String} {e : StoreError}

def set (m : Table) (key : String) (t : Task) : Table := fun k => if k = key then some t else m k

/-- Every task is filed under its own key. It is kept by every step, so a look-up answers with the
task that was asked for. -/
def Keyed (m : Table) : Prop := ∀ key t, m key = some t → t.key = key

/-- The map holds `stored`, and `incoming` was made from it. -/
def Accepts (m : Table) (incoming stored : Task) : Prop :=
  m incoming.key = some stored ∧ incoming.metadata.version = stored.metadata.version

/-- The next version of `stored` after an update: all but the status is as it came. -/
def replaced (stored incoming : Task) : Task where
  metadata := { incoming.metadata with version := stored.metadata.version + 1 }
  spec := incoming.spec
  status := stored.status

/-- The next version of `stored` after an update of its status: only the status and the annotations
are as they came. -/
def restated (stored incoming : Task) : Task where
  metadata :=
    { stored.metadata with
      annotations := incoming.metadata.annotations
      version := stored.metadata.version + 1 }
  spec := stored.spec
  status := incoming.status

@[simp] theorem key_restated {incoming : Task} : (restated stored incoming).key = stored.key := rfl

/-- Why a write of `incoming` fails. For one table and one write at most one reason applies. -/
inductive Refuses (m : Table) (incoming : Task) : StoreError → Prop
  | absent (habsent : m incoming.key = none) : m.Refuses incoming (.notFound incoming.key)
  | stale (stored : Task) (hstored : m incoming.key = some stored)
      (hversion : incoming.metadata.version ≠ stored.metadata.version) :
      m.Refuses incoming
        (.conflict incoming.key incoming.metadata.version stored.metadata.version)

/-- What the map answers to a request, and what it is afterwards. -/
inductive Step (m : Table) : Store.Request → Store.Answer → Table → Prop
  /-- A new task is stored at version one, whatever version it came with. -/
  | created (t : Task) (habsent : m t.key = none) :
      m.Step (.create t) (.task { t with metadata.version := 1 })
        (m.set t.key { t with metadata.version := 1 })
  | taken (t stored : Task) (hstored : m t.key = some stored) :
      m.Step (.create t) (.failed (.alreadyExists t.key)) m
  | found (key : String) (t : Task) (hstored : m key = some t) : m.Step (.get key) (.task t) m
  | missing (key : String) (habsent : m key = none) :
      m.Step (.get key) (.failed (.notFound key)) m
  | updated (t stored : Task) (haccepts : m.Accepts t stored) :
      m.Step (.update t) (.task (replaced stored t)) (m.set t.key (replaced stored t))
  | updateRefused (t : Task) (e : StoreError) (hrefuses : m.Refuses t e) :
      m.Step (.update t) (.failed e) m
  | statusUpdated (t stored : Task) (haccepts : m.Accepts t stored) :
      m.Step (.updateStatus t) (.task (restated stored t)) (m.set t.key (restated stored t))
  | statusRefused (t : Task) (e : StoreError) (hrefuses : m.Refuses t e) :
      m.Step (.updateStatus t) (.failed e) m
  /-- Each stored task once, in the order of the keys. -/
  | listed (ts : List Task) (hsorted : ts.Pairwise (·.key < ·.key))
      (hmem : ∀ t, t ∈ ts ↔ m t.key = some t) : m.Step .list (.tasks ts) m

/-- Step by step through a sequence of requests, with the answer that each of them got. -/
inductive Run : Table → List Store.Request → List Store.Answer → Table → Prop
  | nil (m : Table) : Run m [] [] m
  | cons {m m₁ m₂ : Table} {r : Store.Request} {a : Store.Answer} {rs : List Store.Request}
      {as : List Store.Answer} (hstep : m.Step r a m₁) (hrun : Run m₁ rs as m₂) :
      Run m (r :: rs) (a :: as) m₂

theorem stored_unique {u : Task} (h : m key = some t) (h' : m key = some u) : t = u :=
  Option.some.inj (h.symm.trans h')

theorem not_absent (hstored : m key = some t) (habsent : m key = none) : False := by
  rw [habsent] at hstored
  cases hstored

theorem Accepts.eq {stored' : Task} (h : m.Accepts t stored) (h' : m.Accepts t stored') :
    stored = stored' :=
  stored_unique h.1 h'.1

theorem Accepts.not_refuses (h : m.Accepts t stored) (hrefuses : m.Refuses t e) : False := by
  obtain ⟨hstored, hversion⟩ := h
  cases hrefuses with
  | absent habsent => exact not_absent hstored habsent
  | stale stored' hstored' hne =>
    obtain rfl := stored_unique hstored hstored'
    exact hne hversion

theorem Refuses.eq {e' : StoreError} (h : m.Refuses t e) (h' : m.Refuses t e') : e = e' := by
  cases h with
  | absent habsent =>
    cases h' with
    | absent => rfl
    | stale stored hstored => exact (not_absent hstored habsent).elim
  | stale stored hstored hversion =>
    cases h' with
    | absent habsent => exact (not_absent hstored habsent).elim
    | stale stored' hstored' =>
      obtain rfl := stored_unique hstored hstored'
      rfl

/-- Lists in the order of the keys are told apart by their members. -/
theorem eq_of_sorted {ts us : List Task} (hts : ts.Pairwise (·.key < ·.key))
    (hus : us.Pairwise (·.key < ·.key)) (h : ∀ t, t ∈ ts ↔ t ∈ us) : ts = us := by
  have hirrefl : ∀ t : Task, ¬ t.key < t.key := fun t => String.lt_irrefl t.key
  have hnodup : ts.Nodup := hts.imp fun {a b} hlt => by
    rintro rfl
    exact hirrefl a hlt
  have hnodup' : us.Nodup := hus.imp fun {a b} hlt => by
    rintro rfl
    exact hirrefl a hlt
  have hperm : ts.Perm us := (List.perm_ext_iff_of_nodup hnodup hnodup').mpr h
  refine hperm.eq_of_pairwise (fun a b _ _ hab hba => ?_) hts hus
  exact absurd (String.lt_trans hab hba) (hirrefl a)

/-- The map has one answer to a request, and one map behind it. So the store, which takes such
steps, takes exactly these. -/
theorem Step.functional {r : Store.Request} {a b : Store.Answer} (ha : m.Step r a m₁)
    (hb : m.Step r b m₂) : a = b ∧ m₁ = m₂ := by
  cases ha with
  | created t habsent =>
    cases hb with
    | created => exact ⟨rfl, rfl⟩
    | taken _ stored hstored => exact (not_absent hstored habsent).elim
  | taken t stored hstored =>
    cases hb with
    | created _ habsent => exact (not_absent hstored habsent).elim
    | taken => exact ⟨rfl, rfl⟩
  | found key t hstored =>
    cases hb with
    | found _ u hstored' =>
      obtain rfl := stored_unique hstored hstored'
      exact ⟨rfl, rfl⟩
    | missing _ habsent => exact (not_absent hstored habsent).elim
  | missing key habsent =>
    cases hb with
    | found _ _ hstored => exact (not_absent hstored habsent).elim
    | missing => exact ⟨rfl, rfl⟩
  | updated t stored haccepts =>
    cases hb with
    | updated _ stored' haccepts' =>
      obtain rfl := haccepts.eq haccepts'
      exact ⟨rfl, rfl⟩
    | updateRefused _ e hrefuses => exact (haccepts.not_refuses hrefuses).elim
  | updateRefused t e hrefuses =>
    cases hb with
    | updated _ stored haccepts => exact (haccepts.not_refuses hrefuses).elim
    | updateRefused _ e' hrefuses' => exact ⟨by rw [hrefuses.eq hrefuses'], rfl⟩
  | statusUpdated t stored haccepts =>
    cases hb with
    | statusUpdated _ stored' haccepts' =>
      obtain rfl := haccepts.eq haccepts'
      exact ⟨rfl, rfl⟩
    | statusRefused _ e hrefuses => exact (haccepts.not_refuses hrefuses).elim
  | statusRefused t e hrefuses =>
    cases hb with
    | statusUpdated _ stored haccepts => exact (haccepts.not_refuses hrefuses).elim
    | statusRefused _ e' hrefuses' => exact ⟨by rw [hrefuses.eq hrefuses'], rfl⟩
  | listed ts hsorted hmem =>
    cases hb with
    | listed us hsorted' hmem' =>
      have heq : ts = us := eq_of_sorted hsorted hsorted' fun t => (hmem t).trans (hmem' t).symm
      exact ⟨by rw [heq], rfl⟩

theorem Run.functional {rs : List Store.Request} {as bs : List Store.Answer}
    (ha : m.Run rs as m₁) (hb : m.Run rs bs m₂) : as = bs ∧ m₁ = m₂ := by
  induction ha generalizing bs with
  | nil =>
    cases hb
    exact ⟨rfl, rfl⟩
  | cons hstep _ ih =>
    cases hb with
    | cons hstep' hrun' =>
      obtain ⟨rfl, rfl⟩ := hstep.functional hstep'
      obtain ⟨rfl, rfl⟩ := ih hrun'
      exact ⟨rfl, rfl⟩

theorem set_of_ne {k : String} (h : k ≠ key) : m.set key t k = m k := if_neg h

theorem set_self : m.set key t key = some t := if_pos rfl

/-- No other key is written. -/
theorem Step.frame {r : Store.Request} {a : Store.Answer} (h : m.Step r a m₁)
    (hquiet : ¬ r.Writes key) : m₁ key = m key := by
  cases h with
  | created t => exact set_of_ne (Ne.symm hquiet)
  | updated t => exact set_of_ne (Ne.symm hquiet)
  | statusUpdated t => exact set_of_ne (Ne.symm hquiet)
  | taken | found | missing | updateRefused | statusRefused | listed => rfl

theorem Run.frame {rs : List Store.Request} {as : List Store.Answer} (h : m.Run rs as m₁)
    (hquiet : ∀ r ∈ rs, ¬ r.Writes key) : m₁ key = m key := by
  induction h with
  | nil => rfl
  | cons hstep _ ih =>
    obtain ⟨hhere, hthen⟩ := List.forall_mem_cons.mp hquiet
    rw [ih hthen, hstep.frame hhere]

/-- The task that an answer shows is the one the map holds. -/
theorem Step.shows {r : Store.Request} (h : m.Step r (.task t) m₁) (hkeyed : m.Keyed) :
    m₁ t.key = some t := by
  cases h with
  | created u => exact set_self
  | updated u => exact set_self
  | found key _ hstored => rwa [hkeyed key t hstored]
  | statusUpdated u stored haccepts =>
    rw [key_restated, hkeyed u.key stored haccepts.1]
    exact set_self

/-- The version at `key` is past `version`. -/
def Past (key : String) (version : Nat) (m : Table) : Prop :=
  ∃ t, m key = some t ∧ version < t.metadata.version

theorem Past.set {version : Nat} {k : String} (h : Past key version m) (hstored : m k = some stored)
    (hnext : t.metadata.version = stored.metadata.version + 1) :
    Past key version (m.set k t) := by
  obtain ⟨u, hu, hpast⟩ := h
  by_cases hkey : key = k
  · subst hkey
    obtain rfl := stored_unique hstored hu
    exact ⟨t, set_self, by omega⟩
  · exact ⟨u, by rw [set_of_ne hkey, hu], hpast⟩

theorem Past.step {version : Nat} {r : Store.Request} {a : Store.Answer} (h : Past key version m)
    (hstep : m.Step r a m₁) : Past key version m₁ := by
  cases hstep with
  | created t habsent =>
    obtain ⟨u, hu, hpast⟩ := h
    have hkey : key ≠ t.key := by
      rintro rfl
      exact not_absent hu habsent
    exact ⟨u, by rw [set_of_ne hkey, hu], hpast⟩
  | updated t stored haccepts => exact h.set haccepts.1 rfl
  | statusUpdated t stored haccepts => exact h.set haccepts.1 rfl
  | taken | found | missing | updateRefused | statusRefused | listed => exact h

/-- Behind its version, a write fails. -/
theorem Past.isTask_eq_false {version : Nat} {r : Store.Request} {a : Store.Answer}
    (h : Past key version m) (hstep : m.Step r a m₁) (hbase : r.base? = some (key, version)) :
    a.isTask = false := by
  have hnot : ∀ t stored, m.Accepts t stored →
      some (t.key, t.metadata.version) ≠ some (key, version) := by
    intro t stored haccepts heq
    obtain ⟨u, hu, hpast⟩ := h
    obtain ⟨rfl, rfl⟩ := Prod.mk.inj (Option.some.inj heq)
    obtain rfl := stored_unique haccepts.1 hu
    have hversion := haccepts.2
    omega
  cases hstep with
  | updated t stored haccepts => exact absurd hbase (hnot t stored haccepts)
  | statusUpdated t stored haccepts => exact absurd hbase (hnot t stored haccepts)
  | created | found => cases hbase
  | taken | missing | updateRefused | statusRefused | listed => rfl

/-- A write that succeeds leaves its version behind, and no further write from that version will
succeed. -/
theorem Step.past {version : Nat} {r : Store.Request} {a : Store.Answer} (h : m.Step r a m₁)
    (hbase : r.base? = some (key, version)) (htask : a.isTask = true) : Past key version m₁ := by
  cases h with
  | updated t stored haccepts =>
    obtain ⟨rfl, rfl⟩ := Prod.mk.inj (Option.some.inj hbase)
    have hversion := haccepts.2
    exact ⟨replaced stored t, set_self, by simp only [replaced]; omega⟩
  | statusUpdated t stored haccepts =>
    obtain ⟨rfl, rfl⟩ := Prod.mk.inj (Option.some.inj hbase)
    have hversion := haccepts.2
    exact ⟨restated stored t, set_self, by simp only [restated]; omega⟩
  | created | found | listed => cases hbase
  | taken | missing | updateRefused | statusRefused => cases htask

theorem Past.run {version : Nat} {rs : List Store.Request} {as : List Store.Answer}
    (h : Past key version m) (hrun : m.Run rs as m₁) :
    ∀ p ∈ rs.zip as, p.1.base? = some (key, version) → p.2.isTask = false := by
  induction hrun with
  | nil => simp
  | cons hstep _ ih =>
    intro p hp hbase
    rcases List.mem_cons.mp hp with rfl | hp
    · exact h.isTask_eq_false hstep hbase
    · exact ih (h.step hstep) p hp hbase

/-- Of two writes that were made from the same version of a task, one fails. -/
theorem Run.exclusive {rs : List Store.Request} {as : List Store.Answer} (h : m.Run rs as m₁) :
    (rs.zip as).Pairwise fun p q =>
      ∀ key version, p.1.base? = some (key, version) → q.1.base? = some (key, version) →
        p.2.isTask = true → q.2.isTask = false := by
  induction h with
  | nil => exact .nil
  | cons hstep hrun ih =>
    refine .cons (fun q hq key version hbase hbase' htask => ?_) ih
    exact (hstep.past hbase htask).run hrun q hq hbase'

theorem set_eq_some_iff {k : String} {new : Task} :
    m.set k new key = some t ↔ key = k ∧ new = t ∨ key ≠ k ∧ m key = some t := by
  by_cases hkey : key = k
  · rw [hkey, set_self]
    simp
  · rw [set_of_ne hkey]
    simp [hkey]

/-- A version is the first, or at most one more than a version before. -/
theorem Step.version_le {r : Store.Request} {a : Store.Answer} (h : m.Step r a m₁)
    (ht : m₁ key = some t) :
    t.metadata.version = 1 ∨
      ∃ u, m key = some u ∧ t.metadata.version ≤ u.metadata.version + 1 := by
  cases h with
  | created u =>
    rcases set_eq_some_iff.mp ht with ⟨-, rfl⟩ | ⟨-, h⟩
    · exact .inl rfl
    · exact .inr ⟨t, h, Nat.le_succ _⟩
  | updated u stored haccepts =>
    rcases set_eq_some_iff.mp ht with ⟨rfl, rfl⟩ | ⟨-, h⟩
    · exact .inr ⟨stored, haccepts.1, Nat.le_refl _⟩
    · exact .inr ⟨t, h, Nat.le_succ _⟩
  | statusUpdated u stored haccepts =>
    rcases set_eq_some_iff.mp ht with ⟨rfl, rfl⟩ | ⟨-, h⟩
    · exact .inr ⟨stored, haccepts.1, Nat.le_refl _⟩
    · exact .inr ⟨t, h, Nat.le_succ _⟩
  | taken | found | missing | updateRefused | statusRefused | listed =>
    exact .inr ⟨t, ht, Nat.le_succ _⟩

end Table

namespace Store
variable {s : Store} {t cur : Task} {key : String}

theorem put_get?_eq_set (s : Store) (t : Task) : (s.put t).get? = Table.set s.get? t.key t := by
  funext key
  rw [get?_put]
  rfl

theorem nextVersion_of_lt {v : Nat} (h : v < Bounds.nat64Max) : nextVersion v = v + 1 := by
  rw [nextVersion]
  omega

/-- A write fails as the map says, and otherwise replaces the task it was made from. -/
theorem base_cases (s : Store) (incoming : Task) :
    (∃ e, s.base incoming = .error e ∧ Table.Refuses s.get? incoming e) ∨
      ∃ cur, s.base incoming = .ok cur ∧ Table.Accepts s.get? incoming cur := by
  cases hcur : s.get? incoming.key with
  | none => exact .inl ⟨_, base_of_absent hcur, .absent hcur⟩
  | some cur =>
    by_cases hversion : incoming.metadata.version = cur.metadata.version
    · exact .inr ⟨cur, base_eq_ok_iff.mpr ⟨hcur, hversion⟩, hcur, hversion⟩
    · exact .inl ⟨_, base_of_version_ne hcur hversion, .stale cur hcur hversion⟩

theorem mem_list : t ∈ s.list ↔ s.get? t.key = some t := by
  unfold list SortedMap.values get?
  rw [List.mem_map]
  constructor
  · intro h
    obtain ⟨⟨key, u⟩, hmem, rfl⟩ := h
    have hstored : s.tasks.get? key = some u := SortedMap.mem_entries_iff.mp hmem
    rwa [s.keyed key u hstored]
  · intro h
    exact ⟨(t.key, t), SortedMap.mem_entries_iff.mpr h, rfl⟩

theorem list_sorted (s : Store) : s.list.Pairwise (·.key < ·.key) := by
  unfold list SortedMap.values
  rw [List.pairwise_map]
  refine s.tasks.sorted.imp_of_mem fun {a b} ha hb hlt => ?_
  have hkey : ∀ e ∈ s.tasks.entries, e.2.key = e.1 := fun e he =>
    s.keyed e.1 e.2 (SortedMap.mem_entries_iff.mp he)
  rwa [hkey a ha, hkey b hb]

theorem step_create (s : Store) (t : Task) :
    Table.Step s.get? (.create t) (s.serve (.create t)).1 (s.serve (.create t)).2.get? := by
  cases hcur : s.get? t.key with
  | none =>
    have hcreate := create_eq_ok_iff.mpr ⟨hcur, rfl, rfl⟩
    simp only [serve, hcreate, answerWrite, put_get?_eq_set]
    exact .created t hcur
  | some cur =>
    have hcreate : s.create t = .error (.alreadyExists t.key) := by rw [create, hcur]
    simp only [serve, hcreate, answerWrite]
    exact .taken t cur hcur

theorem step_get (s : Store) (key : String) :
    Table.Step s.get? (.get key) (s.serve (.get key)).1 (s.serve (.get key)).2.get? := by
  cases hcur : s.get? key with
  | none =>
    have hget : s.get key = .error (.notFound key) := by rw [get, hcur]
    simp only [serve, hget]
    exact .missing key hcur
  | some cur =>
    simp only [serve, get_eq_ok_iff.mpr hcur]
    exact .found key cur hcur

theorem edited_eq_replaced (h : cur.metadata.version < Bounds.nat64Max) :
    edited cur t = Table.replaced cur t := by
  rw [edited, Table.replaced, nextVersion_of_lt h]

theorem reported_eq_restated (h : cur.metadata.version < Bounds.nat64Max) :
    reported cur t = Table.restated cur t := by
  rw [reported, Table.restated, nextVersion_of_lt h]

theorem step_update (hroom : s.HasRoom t.key) :
    Table.Step s.get? (.update t) (s.serve (.update t)).1 (s.serve (.update t)).2.get? := by
  obtain ⟨e, hbase, hrefuses⟩ | ⟨cur, hbase, hcur, hversion⟩ := s.base_cases t
  · have hwrite : s.update t = .error e := by rw [update, hbase]; rfl
    simp only [serve, hwrite, answerWrite]
    exact .updateRefused t e hrefuses
  · have hwrite := update_eq_ok_iff.mpr ⟨cur, hcur, hversion, rfl, rfl⟩
    simp only [serve, hwrite, answerWrite, put_get?_eq_set, edited_eq_replaced (hroom cur hcur)]
    exact .updated t cur ⟨hcur, hversion⟩

theorem step_updateStatus (hroom : s.HasRoom t.key) :
    Table.Step s.get? (.updateStatus t) (s.serve (.updateStatus t)).1
      (s.serve (.updateStatus t)).2.get? := by
  obtain ⟨e, hbase, hrefuses⟩ | ⟨cur, hbase, hcur, hversion⟩ := s.base_cases t
  · have hwrite : s.updateStatus t = .error e := by rw [updateStatus, hbase]; rfl
    simp only [serve, hwrite, answerWrite]
    exact .statusRefused t e hrefuses
  · have hwrite := updateStatus_eq_ok_iff.mpr ⟨cur, hcur, hversion, rfl, rfl⟩
    have hkey : (Table.restated cur t).key = t.key := by
      rw [Table.key_restated, key_of_get? hcur]
    simp only [serve, hwrite, answerWrite, put_get?_eq_set, reported_eq_restated (hroom cur hcur),
      hkey]
    exact .statusUpdated t cur ⟨hcur, hversion⟩

theorem step_serve (hroom : ∀ key, s.HasRoom key) (r : Request) :
    Table.Step s.get? r (s.serve r).1 (s.serve r).2.get? := by
  cases r with
  | create t => exact s.step_create t
  | get key => exact s.step_get key
  | update t => exact step_update (hroom t.key)
  | updateStatus t => exact step_updateStatus (hroom t.key)
  | list => exact .listed s.list s.list_sorted fun _ => mem_list

theorem run_serve {rs : List Request} (hroom : s.RoomThrough rs) :
    Table.Run s.get? rs (s.answers rs) (s.after rs).get? := by
  induction rs generalizing s with
  | nil => exact .nil _
  | cons r rs ih =>
    obtain ⟨hhere, hthen⟩ := hroom
    exact .cons (step_serve hhere r) (ih hthen)

theorem after_append (s : Store) (rs rs' : List Request) :
    s.after (rs ++ rs') = (s.after rs).after rs' := by
  induction rs generalizing s with
  | nil => rfl
  | cons r rs ih => exact ih (s.serve r).2

theorem roomThrough_append {rs rs' : List Request} :
    s.RoomThrough (rs ++ rs') ↔ s.RoomThrough rs ∧ (s.after rs).RoomThrough rs' := by
  induction rs generalizing s with
  | nil => simp only [List.nil_append, RoomThrough, after, true_and]
  | cons r rs ih => simp only [List.cons_append, RoomThrough, after, ih, and_assoc]

/-- Versions last for as many requests as there are versions left. -/
theorem roomThrough_of_length {rs : List Request} (hlength : rs.length < Bounds.nat64Max)
    (h : ∀ key t, s.get? key = some t → t.metadata.version + rs.length ≤ Bounds.nat64Max) :
    s.RoomThrough rs := by
  induction rs generalizing s with
  | nil => trivial
  | cons r rs ih =>
    rw [List.length_cons] at h hlength
    have hroom : ∀ key, s.HasRoom key := by
      intro key t ht
      have hleft := h key t ht
      omega
    refine ⟨hroom, ih (by omega) fun key t ht => ?_⟩
    obtain hfirst | ⟨u, hu, hversion⟩ := (step_serve hroom r).version_le ht
    · omega
    · have hleft := h key u hu
      omega

/-- Whatever is asked of a store over time, it answers as the map does and holds what the map holds.
What an answer shows is what a later request gets, until that key is written again. Of two writes
that were made from the same version of a task one fails. -/
theorem serves_as_table {s : Store} {rs : List Request} (hroom : s.RoomThrough rs) :
    (∀ as m, Table.Run s.get? rs as m ↔ s.answers rs = as ∧ (s.after rs).get? = m) ∧
    Table.Keyed (s.after rs).get? ∧
    (∀ ps r qs t, rs = ps ++ r :: qs → ((s.after ps).serve r).1 = .task t →
      (∀ q ∈ qs, ¬ q.Writes t.key) → ((s.after rs).serve (.get t.key)).1 = .task t) ∧
    (rs.zip (s.answers rs)).Pairwise fun p q =>
      ∀ key version, p.1.base? = some (key, version) → q.1.base? = some (key, version) →
        p.2.isTask = true → q.2.isTask = false := by
  have hrun : Table.Run s.get? rs (s.answers rs) (s.after rs).get? := run_serve hroom
  refine ⟨fun as m => ?_, fun key t ht => key_of_get? ht, ?_, hrun.exclusive⟩
  · constructor
    · intro h
      exact hrun.functional h
    · rintro ⟨rfl, rfl⟩
      exact hrun
  · intro ps r qs t hsplit hanswer hquiet
    rw [hsplit, roomThrough_append] at hroom
    obtain ⟨-, hhere, hthen⟩ := hroom
    have hstep := step_serve hhere r
    rw [hanswer] at hstep
    have hshown := hstep.shows fun key t ht => key_of_get? ht
    have hstored : (s.after rs).get? t.key = some t := by
      rw [hsplit, after_append, ← hshown]
      exact (run_serve hthen).frame hquiet
    simp only [serve, get_eq_ok_iff.mpr hstored]

/-- A task of `version` under the key `prod/deploy`. -/
def deploy (version : Nat) : Task :=
  { metadata := { name := "deploy", space := some "prod", version } }

/-- Two writers, both from version one, and a task whose name is the key of another. -/
def rivals : List Request :=
  [.create (deploy 9), .create { metadata.name := "prod/deploy" },
    .update { deploy 1 with spec.required := 2, status.reason := some "mine" },
    .updateStatus { deploy 1 with status.reason := some "yours" },
    .updateStatus { deploy 2 with status.reason := some "yours", spec.required := 7 }, .list]

theorem first_of_rivals_lands :
    empty.RoomThrough rivals ∧
    ∃ m, Table.Run (fun _ => none) rivals
      [.task (deploy 1), .failed (.alreadyExists "prod/deploy"),
        .task { deploy 2 with spec.required := 2 }, .failed (.conflict "prod/deploy" 1 2),
        .task { deploy 3 with spec.required := 2, status.reason := some "yours" },
        .tasks [{ deploy 3 with spec.required := 2, status.reason := some "yours" }]] m := by
  have hroom : empty.RoomThrough rivals :=
    roomThrough_of_length (by decide) fun key t ht => by cases ht
  have hanswers : empty.answers rivals =
      [.task (deploy 1), .failed (.alreadyExists "prod/deploy"),
        .task { deploy 2 with spec.required := 2 }, .failed (.conflict "prod/deploy" 1 2),
        .task { deploy 3 with spec.required := 2, status.reason := some "yours" },
        .tasks [{ deploy 3 with spec.required := 2, status.reason := some "yours" }]] := by
    decide
  exact ⟨hroom, _, ((serves_as_table hroom).1 _ _).mpr ⟨hanswers, rfl⟩⟩

end Store
end Quorum
