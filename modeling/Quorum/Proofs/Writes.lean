import Quorum.Proofs.Review
import Quorum.Store

/-!
# What a write leaves behind

A write replaces the task it was made from, raises its version, and touches no other. So a task that
was stored once is stored still, or another of a higher version in its place, as long as versions
have not run out (`Store.Follows`). A write that is accepted by its version therefore replaces the
very task that was read (`Store.Follows.eq_of_version`).
-/
namespace Quorum.Store
variable {s s' : Store} {incoming t cur : Task} {key : String}

theorem get_eq_ok_iff : s.get key = .ok t ↔ s.get? key = some t := by
  unfold get
  cases s.get? key <;> simp

theorem base_eq_ok_iff :
    s.base incoming = .ok cur ↔
      s.get? incoming.key = some cur ∧ incoming.metadata.version = cur.metadata.version := by
  unfold base
  cases s.get? incoming.key with
  | none => simp
  | some stored =>
    by_cases h : incoming.metadata.version = stored.metadata.version
    · simp only [if_pos h, Except.ok.injEq, Option.some.injEq]
      exact ⟨fun heq => ⟨heq, heq ▸ h⟩, fun heq => heq.1⟩
    · simp only [if_neg h, reduceCtorEq, false_iff, Option.some.injEq]
      intro h
      obtain ⟨rfl, hversion⟩ := h
      exact h hversion

theorem base_of_absent (h : s.get? incoming.key = none) :
    s.base incoming = .error (.notFound incoming.key) := by
  rw [base, h]

theorem base_of_version_ne (hcur : s.get? incoming.key = some cur)
    (hversion : incoming.metadata.version ≠ cur.metadata.version) :
    s.base incoming =
      .error (.conflict incoming.key incoming.metadata.version cur.metadata.version) := by
  rw [base, hcur]
  simp only [if_neg hversion]

/-- The task that a specification write puts in place of `cur`. -/
def edited (cur incoming : Task) : Task where
  metadata := { incoming.metadata with version := nextVersion cur.metadata.version }
  spec := incoming.spec
  status := cur.status

/-- The task that a status write puts in place of `cur`. -/
def reported (cur incoming : Task) : Task where
  metadata :=
    { cur.metadata with
      annotations := incoming.metadata.annotations
      version := nextVersion cur.metadata.version }
  spec := cur.spec
  status := incoming.status

@[simp] theorem key_edited : (edited cur incoming).key = incoming.key := rfl

@[simp] theorem key_reported : (reported cur incoming).key = cur.key := rfl

@[simp] theorem status_reported : (reported cur incoming).status = incoming.status := rfl

@[simp] theorem spec_reported : (reported cur incoming).spec = cur.spec := rfl

@[simp] theorem version_edited :
    (edited cur incoming).metadata.version = nextVersion cur.metadata.version := rfl

@[simp] theorem version_reported :
    (reported cur incoming).metadata.version = nextVersion cur.metadata.version := rfl

theorem create_eq_ok_iff :
    s.create incoming = .ok (t, s') ↔
      s.get? incoming.key = none ∧ t = { incoming with metadata.version := 1 } ∧ s' = s.put t := by
  unfold create
  cases s.get? incoming.key with
  | none =>
    simp only [Except.ok.injEq, Prod.mk.injEq, true_and]
    constructor
    · intro h
      obtain ⟨rfl, rfl⟩ := h
      exact ⟨rfl, rfl⟩
    · intro h
      obtain ⟨rfl, rfl⟩ := h
      exact ⟨rfl, rfl⟩
  | some _ => simp

theorem update_eq_ok_iff :
    s.update incoming = .ok (t, s') ↔ ∃ cur, s.get? incoming.key = some cur ∧
      incoming.metadata.version = cur.metadata.version ∧ t = edited cur incoming ∧
      s' = s.put t := by
  simp only [update, bind_eq_ok_iff, base_eq_ok_iff]
  constructor
  · intro h
    obtain ⟨cur, ⟨hcur, hversion⟩, hwrite⟩ := h
    cases hwrite
    exact ⟨cur, hcur, hversion, rfl, rfl⟩
  · intro h
    obtain ⟨cur, hcur, hversion, rfl, rfl⟩ := h
    exact ⟨cur, ⟨hcur, hversion⟩, rfl⟩

theorem updateStatus_eq_ok_iff :
    s.updateStatus incoming = .ok (t, s') ↔ ∃ cur, s.get? incoming.key = some cur ∧
      incoming.metadata.version = cur.metadata.version ∧ t = reported cur incoming ∧
      s' = s.put t := by
  simp only [updateStatus, bind_eq_ok_iff, base_eq_ok_iff]
  constructor
  · intro h
    obtain ⟨cur, ⟨hcur, hversion⟩, hwrite⟩ := h
    cases hwrite
    exact ⟨cur, hcur, hversion, rfl, rfl⟩
  · intro h
    obtain ⟨cur, hcur, hversion, rfl, rfl⟩ := h
    exact ⟨cur, ⟨hcur, hversion⟩, rfl⟩

theorem update_of_version_ne (hcur : s.get? incoming.key = some cur)
    (hversion : incoming.metadata.version ≠ cur.metadata.version) :
    s.update incoming =
      .error (.conflict incoming.key incoming.metadata.version cur.metadata.version) := by
  rw [update, base_of_version_ne hcur hversion]
  rfl

theorem updateStatus_of_version_ne (hcur : s.get? incoming.key = some cur)
    (hversion : incoming.metadata.version ≠ cur.metadata.version) :
    s.updateStatus incoming =
      .error (.conflict incoming.key incoming.metadata.version cur.metadata.version) := by
  rw [updateStatus, base_of_version_ne hcur hversion]
  rfl

/-- `s'` is `s` after a write of any kind, by anyone. -/
def Write (s s' : Store) : Prop :=
  ∃ incoming t, s.create incoming = .ok (t, s') ∨ s.update incoming = .ok (t, s') ∨
    s.updateStatus incoming = .ok (t, s')

/-- The task at `key` stays, or gives way to one of the next version. -/
def Advances (key : String) (s s' : Store) : Prop :=
  ∀ t, s.get? key = some t → ∃ t', s'.get? key = some t' ∧
    (t' = t ∨ t'.metadata.version = nextVersion t.metadata.version)

theorem Advances.of_get?_eq (h : s'.get? key = s.get? key) : Advances key s s' := by
  intro t ht
  exact ⟨t, h.trans ht, .inl rfl⟩

/-- A task put in place of the one of its key, a version later. -/
theorem Advances.put (ht : s.get? t.key = some cur)
    (hversion : t.metadata.version = nextVersion cur.metadata.version) :
    Advances key s (s.put t) := by
  intro u hu
  rw [get?_put]
  by_cases hkey : key = t.key
  · subst hkey
    obtain rfl : cur = u := Option.some.inj (ht.symm.trans hu)
    exact ⟨t, if_pos rfl, .inr hversion⟩
  · exact ⟨u, by rw [if_neg hkey, hu], .inl rfl⟩

theorem Advances.update (h : s.update incoming = .ok (t, s')) : Advances key s s' := by
  obtain ⟨cur, hcur, -, rfl, rfl⟩ := update_eq_ok_iff.mp h
  exact .put hcur rfl

theorem Advances.updateStatus (h : s.updateStatus incoming = .ok (t, s')) :
    Advances key s s' := by
  obtain ⟨cur, hcur, -, rfl, rfl⟩ := updateStatus_eq_ok_iff.mp h
  have hstored : s.get? (reported cur incoming).key = some cur := by
    rw [key_reported, key_of_get? hcur, hcur]
  exact .put hstored rfl

theorem Advances.create (h : s.create incoming = .ok (t, s')) : Advances key s s' := by
  obtain ⟨hnone, rfl, rfl⟩ := create_eq_ok_iff.mp h
  intro u hu
  have hkey : key ≠ incoming.key := by
    rintro rfl
    rw [hnone] at hu
    cases hu
  exact ⟨u, by rw [get?_put]; exact (if_neg hkey).trans hu, .inl rfl⟩

theorem Write.advances (h : Write s s') : Advances key s s' := by
  obtain ⟨incoming, t, hcreate | hupdate | hstatus⟩ := h
  · exact .create hcreate
  · exact .update hupdate
  · exact .updateStatus hstatus

/-- The task at `key` can still be given a version it has not had. At the last version a write
leaves the version as it is, so that a write made before it is no longer told from one made after
it; results about what writers see of one another hold up to there. -/
def HasRoom (key : String) (s : Store) : Prop :=
  ∀ t, s.get? key = some t → t.metadata.version < Bounds.nat64Max

theorem HasRoom.of_advances (hroom : HasRoom key s') (h : Advances key s s') :
    HasRoom key s := by
  intro t ht
  obtain ⟨t', ht', rfl | hversion⟩ := h t ht
  · exact hroom t' ht'
  · have hbelow := hroom t' ht'
    rw [hversion, nextVersion] at hbelow
    omega

theorem hasRoom_empty (key : String) : HasRoom key empty := by
  intro t ht
  cases ht

theorem HasRoom.put (h : HasRoom key s) (ht : t.metadata.version < Bounds.nat64Max) :
    HasRoom key (s.put t) := by
  intro u hu
  rw [get?_put] at hu
  by_cases hkey : key = t.key
  · rw [if_pos hkey] at hu
    cases hu
    exact ht
  · rw [if_neg hkey] at hu
    exact h u hu

/-- What has become of a task that was stored at some time: nothing, or it was replaced. -/
def Follows (read : Task) (s : Store) : Prop :=
  ∃ t, s.get? read.key = some t ∧
    (t = read ∨ read.metadata.version < t.metadata.version ∨
      Bounds.nat64Max ≤ t.metadata.version)

theorem Follows.of_get? {read : Task} (h : s.get? key = some read) : Follows read s :=
  ⟨read, by rw [key_of_get? h, h], .inl rfl⟩

theorem Follows.advance {read : Task} (h : Follows read s) (hadv : Advances read.key s s') :
    Follows read s' := by
  obtain ⟨t, ht, hfollows⟩ := h
  obtain ⟨t', ht', rfl | hversion⟩ := hadv t ht
  · exact ⟨t', ht', hfollows⟩
  · refine ⟨t', ht', .inr ?_⟩
    rw [hversion, nextVersion]
    rcases hfollows with rfl | hrisen | hfull <;> omega

/-- A stored task of the version that was read is the task that was read. -/
theorem Follows.eq_of_version {read : Task} (h : Follows read s) (hroom : HasRoom read.key s)
    (hcur : s.get? read.key = some cur)
    (hversion : read.metadata.version = cur.metadata.version) : cur = read := by
  obtain ⟨t, ht, hfollows⟩ := h
  obtain rfl : t = cur := Option.some.inj (ht.symm.trans hcur)
  have hbelow := hroom t ht
  rcases hfollows with heq | hrisen | hfull
  · exact heq
  · omega
  · omega

end Quorum.Store
