/-!
# Sets of names

A set of names is its strictly increasing list. Sets with the same members are equal
(`NameSet.ext_mem`), so nothing computed from one can depend on the order of insertion.
-/
namespace Quorum

/-- The name put into its place, unless it is there already. -/
def putName (name : String) : List String → List String
  | [] => [name]
  | n :: ns =>
    if name < n then name :: n :: ns
    else if name = n then n :: ns
    else n :: putName name ns

theorem mem_putName {name n : String} {ns : List String} :
    n ∈ putName name ns ↔ n = name ∨ n ∈ ns := by
  induction ns with
  | nil => simp [putName]
  | cons m ns ih =>
    rw [putName]
    split
    · simp
    split
    · next eq => subst eq; simp
    · simp [ih, or_left_comm]

/-- What was in order stays so, since the name goes in front of the first one that is greater. -/
theorem putName_sorted (name : String) {ns : List String} (h : ns.Pairwise (· < ·)) :
    (putName name ns).Pairwise (· < ·) := by
  induction ns with
  | nil => simp [putName]
  | cons m ns ih =>
    obtain ⟨hm, hns⟩ := List.pairwise_cons.1 h
    rw [putName]
    split
    · next lt =>
      refine List.pairwise_cons.2 ⟨fun n hn => ?_, h⟩
      rcases List.mem_cons.1 hn with rfl | hn
      · exact lt
      · exact String.lt_trans lt (hm n hn)
    split
    · exact h
    · next nlt ne =>
      refine List.pairwise_cons.2 ⟨fun n hn => ?_, ih hns⟩
      rcases mem_putName.1 hn with rfl | hn
      · exact Std.lt_of_le_of_ne (Std.not_lt.1 nlt) (Ne.symm ne)
      · exact hm n hn

/-- A set of names, with the order that makes two equal sets equal lists. -/
structure NameSet where
  names : List String
  sorted : names.Pairwise (· < ·)
deriving DecidableEq, Repr

namespace NameSet

def empty : NameSet := ⟨[], .nil⟩

instance : Inhabited NameSet := ⟨empty⟩

instance : Membership String NameSet := ⟨fun s name => name ∈ s.names⟩

instance (name : String) (s : NameSet) : Decidable (name ∈ s) :=
  inferInstanceAs (Decidable (name ∈ s.names))

def insert (s : NameSet) (name : String) : NameSet :=
  ⟨putName name s.names, putName_sorted name s.sorted⟩

/-- The names of a list. Their order in it and their repetitions leave no trace. -/
def ofList (names : List String) : NameSet := names.foldl insert empty

/-- How many names there are, each counted once. Approvals are counted by it, so nobody counts
twice. -/
def size (s : NameSet) : Nat := s.names.length

@[simp] theorem not_mem_empty (name : String) : ¬ name ∈ empty := List.not_mem_nil

@[simp] theorem mem_insert {s : NameSet} {name n : String} :
    n ∈ s.insert name ↔ n = name ∨ n ∈ s := mem_putName

/-- The induction behind `mem_ofList`, for a set that has something in it to begin with. -/
theorem mem_foldl_insert {names : List String} {s : NameSet} {n : String} :
    n ∈ names.foldl insert s ↔ n ∈ s ∨ n ∈ names := by
  induction names generalizing s with
  | nil => simp
  | cons m names ih => simp [ih, or_assoc, or_left_comm]

@[simp] theorem mem_ofList {names : List String} {n : String} :
    n ∈ ofList names ↔ n ∈ names := by
  simp [ofList, mem_foldl_insert]

/-- Sets are told apart by their members. The order in which names were put in is lost, which is why
the counting does not depend on it. -/
theorem ext_mem {s t : NameSet} (h : ∀ n, n ∈ s ↔ n ∈ t) : s = t := by
  obtain ⟨ns, hs⟩ := s
  obtain ⟨ms, ht⟩ := t
  simp only [mk.injEq]
  have mem : ∀ n, n ∈ ns ↔ n ∈ ms := h
  clear h
  induction ns generalizing ms with
  | nil => cases ms with
    | nil => rfl
    | cons m ms => exact absurd ((mem m).2 (by simp)) (by simp)
  | cons n ns ih =>
    cases ms with
    | nil => exact absurd ((mem n).1 (by simp)) (by simp)
    | cons m ms =>
      obtain ⟨hn, hs⟩ := List.pairwise_cons.1 hs
      obtain ⟨hm, ht'⟩ := List.pairwise_cons.1 ht
      have eq : n = m := by
        rcases List.mem_cons.1 ((mem n).1 (by simp)) with h | h
        · exact h
        rcases List.mem_cons.1 ((mem m).2 (by simp)) with h' | h'
        · exact h'.symm
        · exact absurd (String.lt_trans (hm n h) (hn m h')) (String.lt_irrefl _)
      subst eq
      refine congrArg _ (ih hs ms ht' fun x => ?_)
      constructor
      · intro hx
        rcases List.mem_cons.1 ((mem x).1 (by simp [hx])) with rfl | h
        · exact absurd (hn _ hx) (String.lt_irrefl _)
        · exact h
      · intro hx
        rcases List.mem_cons.1 ((mem x).2 (by simp [hx])) with rfl | h
        · exact absurd (hm _ hx) (String.lt_irrefl _)
        · exact h

end NameSet
end Quorum
