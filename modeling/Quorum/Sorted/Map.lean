/-!
# Maps in key order

A map from strings is its list of entries, strictly increasing by key. Two maps are equal as soon
as all look-ups agree (`SortedMap.ext_get?`).
-/
namespace Quorum

/-- The entry put into its place by key, over the one of the same key. -/
def putEntry (key : String) (a : α) : List (String × α) → List (String × α)
  | [] => [(key, a)]
  | (k, b) :: es =>
    if key < k then (key, a) :: (k, b) :: es
    else if key = k then (key, a) :: es
    else (k, b) :: putEntry key a es

theorem mem_putEntry {key : String} {a : α} {e : String × α} {es : List (String × α)}
    (h : e ∈ putEntry key a es) : e = (key, a) ∨ e ∈ es := by
  induction es with
  | nil => simpa [putEntry] using h
  | cons head es ih =>
    obtain ⟨k, b⟩ := head
    rw [putEntry] at h
    split at h
    · simpa using h
    split at h
    · rcases List.mem_cons.1 h with h | h <;> simp [h]
    · rcases List.mem_cons.1 h with h | h
      · simp [h]
      · rcases ih h with h | h <;> simp [h]

theorem putEntry_sorted (key : String) (a : α) {es : List (String × α)}
    (h : es.Pairwise (·.1 < ·.1)) : (putEntry key a es).Pairwise (·.1 < ·.1) := by
  induction es with
  | nil => simp [putEntry]
  | cons head es ih =>
    obtain ⟨k, b⟩ := head
    obtain ⟨hk, hes⟩ := List.pairwise_cons.1 h
    rw [putEntry]
    split
    · next lt =>
      refine List.pairwise_cons.2 ⟨fun e he => ?_, h⟩
      rcases List.mem_cons.1 he with rfl | he
      · exact lt
      · exact String.lt_trans lt (hk e he)
    split
    · next eq => subst eq; exact List.pairwise_cons.2 ⟨hk, hes⟩
    · next nlt ne =>
      refine List.pairwise_cons.2 ⟨fun e he => ?_, ih hes⟩
      rcases mem_putEntry he with rfl | he
      · exact Std.lt_of_le_of_ne (Std.not_lt.1 nlt) (Ne.symm ne)
      · exact hk e he

theorem lookup_cons_if (key k : String) (b : α) (es : List (String × α)) :
    ((k, b) :: es).lookup key = if key = k then some b else es.lookup key := by
  by_cases h : key = k
  · simp [h]
  · have hb : (key == k) = false := by simpa using h
    rw [List.lookup_cons, hb, if_neg h]

/-- The entry that was put is found under its key, and nothing has changed under any other. -/
theorem lookup_putEntry (key k : String) (a : α) (es : List (String × α)) :
    (putEntry key a es).lookup k = if k = key then some a else es.lookup k := by
  induction es with
  | nil => simp [putEntry, lookup_cons_if]
  | cons head es ih =>
    obtain ⟨k', b⟩ := head
    rw [putEntry]
    split
    · rw [lookup_cons_if]
    split
    · next eq =>
      subst eq
      simp only [lookup_cons_if]
      split <;> rfl
    · next ne =>
      simp only [lookup_cons_if, ih]
      by_cases hk : k = k'
      · simp [hk, Ne.symm ne]
      · simp [hk]

/-- Values by key. The order of the entries is part of the type, so that equal contents are equal
maps and are written alike. -/
structure SortedMap (α : Type) where
  entries : List (String × α)
  sorted : entries.Pairwise (·.1 < ·.1)
deriving DecidableEq, Repr

namespace SortedMap

def empty : SortedMap α := ⟨[], .nil⟩

instance : Inhabited (SortedMap α) := ⟨empty⟩

/-- The value at a key, by a search from the front. -/
def get? (m : SortedMap α) (key : String) : Option α := m.entries.lookup key

/-- Puts a value at a key, over the one that may be there. -/
def insert (m : SortedMap α) (key : String) (a : α) : SortedMap α :=
  ⟨putEntry key a m.entries, putEntry_sorted key a m.sorted⟩

/-- Of entries with one key the last counts. Their order makes no other difference. -/
def ofList (es : List (String × α)) : SortedMap α := es.foldl (fun m e => m.insert e.1 e.2) empty

def contains (m : SortedMap α) (key : String) : Bool := (m.get? key).isSome

def isEmpty (m : SortedMap α) : Bool := m.entries.isEmpty

/-- The keys in their order, each of them once. -/
def keys (m : SortedMap α) : List String := m.entries.map Prod.fst

/-- The values in the order of their keys. It is the order in which a round goes over the tasks. -/
def values (m : SortedMap α) : List α := m.entries.map Prod.snd

@[simp] theorem get?_empty (key : String) : (empty : SortedMap α).get? key = none := rfl

@[simp] theorem get?_insert (m : SortedMap α) (key k : String) (a : α) :
    (m.insert key a).get? k = if k = key then some a else m.get? k :=
  lookup_putEntry key k a m.entries

/-- Each key has one entry, so that an entry is in the list exactly if it is found. -/
theorem mem_entries_iff {m : SortedMap α} {key : String} {a : α} :
    (key, a) ∈ m.entries ↔ m.get? key = some a := by
  obtain ⟨es, h⟩ := m
  induction es with
  | nil => simp [get?]
  | cons head es ih =>
    obtain ⟨k, b⟩ := head
    obtain ⟨hk, hes⟩ := List.pairwise_cons.1 h
    have ih := ih hes
    simp only [get?] at ih
    by_cases e : key = k
    · subst e
      have no : (key, a) ∉ es := fun hm => String.lt_irrefl key (hk _ hm)
      simp [get?, no, eq_comm]
    · simp [get?, lookup_cons_if, e, ih]

/-- Maps are told apart by their look-ups, so that a proof about two maps need not go into how
entries are stored. -/
theorem ext_get? {m n : SortedMap α} (h : ∀ key, m.get? key = n.get? key) : m = n := by
  have mem : ∀ e, e ∈ m.entries ↔ e ∈ n.entries := fun (key, a) => by
    rw [mem_entries_iff, mem_entries_iff, h]
  obtain ⟨es, hs⟩ := m
  obtain ⟨fs, ht⟩ := n
  simp only [mk.injEq]
  clear h
  simp only at mem
  induction es generalizing fs with
  | nil => cases fs with
    | nil => rfl
    | cons f fs => exact absurd ((mem f).2 (by simp)) (by simp)
  | cons e es ih =>
    cases fs with
    | nil => exact absurd ((mem e).1 (by simp)) (by simp)
    | cons f fs =>
      obtain ⟨he, hs⟩ := List.pairwise_cons.1 hs
      obtain ⟨hf, ht'⟩ := List.pairwise_cons.1 ht
      have ef : e = f := by
        rcases List.mem_cons.1 ((mem e).1 (by simp)) with h | h
        · exact h
        rcases List.mem_cons.1 ((mem f).2 (by simp)) with h' | h'
        · exact h'.symm
        · exact absurd (String.lt_trans (hf e h) (he f h')) (String.lt_irrefl _)
      subst ef
      refine congrArg _ (ih hs fs ht' fun x => ?_)
      constructor
      · intro hx
        rcases List.mem_cons.1 ((mem x).1 (by simp [hx])) with rfl | h
        · exact absurd (he _ hx) (String.lt_irrefl _)
        · exact h
      · intro hx
        rcases List.mem_cons.1 ((mem x).2 (by simp [hx])) with rfl | h
        · exact absurd (hf _ hx) (String.lt_irrefl _)
        · exact h

end SortedMap
end Quorum
