import Mathlib.Data.List.Basic
import Quorum.Proofs.Fallback
import Quorum.Proofs.Merging

/-!
# What is filled in and what is said of it

The fields may as well be tried one after the other, each with the sources as they are by then
(`Environment.inTurn_eq`). A field that is filled in gets its value if the tree can hold it, and
apart from these fields nothing changes but that a section may be made
(`Environment.at?_fill_eq_leaf_iff`, `Environment.hasTable_fill_iff`). The sources change under the
paths of these fields only, and they do so as well where the tree could not hold the value
(`Environment.fillIn_as_recorded`).
-/
namespace Quorum
open Toml Toml.Value

namespace Environment
variable {s k s' : String} {v w tree : Value} {keys : List String}

/-- The tree has room for the section and nothing there. -/
structure Missing (tree : Value) (s : String) : Prop where
  root : tree.isTable = true
  inner : tree.member? s = none

theorem Missing.canHold (h : Missing tree s) : CanHold tree s :=
  ⟨h.root, fun w hw => by cases h.inner.symm.trans hw⟩

theorem missing_put_iff : Missing (put s k v tree) s' ↔ s' ≠ s ∧ Missing tree s' := by
  constructor
  · rintro ⟨hroot, hinner⟩
    rw [isTable_put] at hroot
    have hne : s' ≠ s := by
      rintro rfl
      obtain ⟨members, rfl⟩ := exists_of_isTable hroot
      rw [member?_put_self] at hinner
      split at hinner <;> cases hinner
    exact ⟨hne, hroot, by rwa [member?_put_of_ne hne] at hinner⟩
  · rintro ⟨hne, hroot, hinner⟩
    exact ⟨isTable_put.trans hroot, (member?_put_of_ne hne).trans hinner⟩

theorem not_canHold_iff :
    ¬ CanHold tree s ↔ tree.isTable = false ∨ ∃ w, tree.member? s = some w ∧ w.isTable = false := by
  constructor
  · intro h
    cases hroot : tree.isTable with
    | false => exact .inl rfl
    | true =>
      cases hmember : tree.member? s with
      | none => exact absurd ⟨hroot, by simp [hmember]⟩ h
      | some w =>
        cases hkind : w.isTable with
        | false => exact .inr ⟨w, rfl, hkind⟩
        | true => exact absurd ⟨hroot, by simp [hmember, hkind]⟩ h
  · rintro (hroot | ⟨w, hw, hkind⟩) h
    · cases hroot.symm.trans h.root
    · cases hkind.symm.trans (h.inner w hw)

/-- Only at the section itself can something else be found, which is a table now. -/
theorem at?_put_cases (h : ¬ [s, k] <+: keys) :
    (put s k v tree).at? keys = tree.at? keys ∨
      (put s k v tree).HasTable keys ∧
        (tree.HasTable keys ∨ keys = [s] ∧ Missing tree s) := by
  match keys with
  | [] =>
    cases hroot : tree.isTable with
    | false => exact .inl (congrArg some (put_of_not_table hroot))
    | true => exact .inr ⟨⟨_, rfl, isTable_put.trans hroot⟩, .inl ⟨_, rfl, hroot⟩⟩
  | [s'] =>
    simp only [HasTable, Value.at?, Option.bind_fun_some]
    by_cases hs : s' = s
    · subst hs
      cases tree with
      | table members =>
        rw [member?_put_self]
        cases hlookup : members.lookup s' with
        | none => exact .inr ⟨⟨_, rfl, rfl⟩, .inr ⟨rfl, rfl, hlookup⟩⟩
        | some w =>
          cases w with
          | table fields => exact .inr ⟨⟨_, rfl, rfl⟩, .inl ⟨_, hlookup, rfl⟩⟩
          | _ => exact .inl hlookup.symm
      | _ => exact .inl rfl
    · exact .inl (member?_put_of_ne hs)
  | s' :: k' :: rest =>
    have hne : [s', k'] ≠ [s, k] := by
      rintro ⟨⟩
      exact h (List.prefix_append [s, k] rest)
    refine .inl ?_
    change (put s k v tree).at? ([s', k'] ++ rest) = tree.at? ([s', k'] ++ rest)
    rw [at?_append, at?_append, at?_put_of_ne hne]

theorem Missing.at? (h : Missing tree s) : tree.at? [s] = none := by
  rw [Value.at?, h.inner, Option.bind_none]

theorem at?_put_eq_leaf_iff (hw : w.isTable = false) (h : ¬ [s, k] <+: keys) :
    (put s k v tree).at? keys = some w ↔ tree.at? keys = some w := by
  rcases at?_put_cases h with hsame | ⟨hnew, hold⟩
  · rw [hsame]
  · refine iff_of_false (fun hput => hnew.not_hasLeaf ⟨w, hput, hw⟩) fun htree => ?_
    rcases hold with htable | ⟨rfl, hmissing⟩
    · exact htable.not_hasLeaf ⟨w, htree, hw⟩
    · cases hmissing.at?.symm.trans htree

theorem hasTable_put_iff (h : ¬ [s, k] <+: keys) :
    (put s k v tree).HasTable keys ↔ tree.HasTable keys ∨ keys = [s] ∧ Missing tree s := by
  constructor
  · intro hput
    rcases at?_put_cases h with hsame | ⟨-, hold⟩
    · exact .inl (by rwa [HasTable, ← hsame])
    · exact hold
  · rintro (⟨w, hw, hkind⟩ | ⟨rfl, hmissing⟩)
    · rcases at?_put_cases h with hsame | ⟨hnew, -⟩
      · exact ⟨w, hsame.trans hw, hkind⟩
      · exact hnew
    · obtain ⟨members, rfl⟩ := exists_of_isTable hmissing.root
      refine ⟨table [(k, v)], ?_, rfl⟩
      rw [Value.at?, member?_put_self, show members.lookup s = none from hmissing.inner]
      rfl

section
variable {todo : List (Binding × String)} {l : Layered} {b : Binding}

/-- Whatever was filled in before, a value outside of these fields stays what it is. -/
theorem at?_fill_eq_leaf_iff (hw : w.isTable = false) (h : ∀ x ∈ todo, ¬ x.1.keys <+: keys) :
    (fill todo l).tree.at? keys = some w ↔ l.tree.at? keys = some w := by
  induction todo generalizing l with
  | nil => rfl
  | cons x todo ih =>
    obtain ⟨hx, htodo⟩ := List.forall_mem_cons.mp h
    exact (ih htodo).trans (at?_put_eq_leaf_iff hw hx)

theorem hasTable_fill_iff (h : ∀ x ∈ todo, ¬ x.1.keys <+: keys) :
    (fill todo l).tree.HasTable keys ↔ l.tree.HasTable keys ∨
      ∃ x ∈ todo, keys = [x.1.sectionKey] ∧ Missing l.tree x.1.sectionKey := by
  induction todo generalizing l with
  | nil => simp [fill]
  | cons x todo ih =>
    obtain ⟨hx, htodo⟩ := List.forall_mem_cons.mp h
    change (fill todo (x.1.apply x.2 l)).tree.HasTable keys ↔ _
    rw [ih htodo, Binding.apply, hasTable_put_iff hx, List.exists_mem_cons_iff,
      or_assoc]
    refine or_congr_right ?_
    constructor
    · rintro (hmade | ⟨y, hy, hkeys, hmissing⟩)
      · exact .inl hmade
      · exact .inr ⟨y, hy, hkeys, (missing_put_iff.mp hmissing).2⟩
    · rintro (hmade | ⟨y, hy, hkeys, hmissing⟩)
      · exact .inl hmade
      · -- a section that several fields need is made for the first of them
        by_cases hs : y.1.sectionKey = x.1.sectionKey
        · exact .inl (hs ▸ ⟨hkeys, hmissing⟩)
        · exact .inr ⟨y, hy, hkeys, missing_put_iff.mpr ⟨hs, hmissing⟩⟩

theorem member?_of_not_table (h : w.isTable = false) : w.member? k = none := by
  cases w with
  | table => cases h
  | _ => rfl

theorem at?_fill_of_not_canHold (h : ¬ CanHold l.tree b.sectionKey) :
    (fill todo l).tree.at? b.keys = none := by
  rw [Binding.keys, at?_pair]
  rcases not_canHold_iff.mp h with hroot | ⟨w, hw, hkind⟩
  · rw [fill_tree_of_not_table hroot, member?_of_not_table hroot, Option.bind_none]
  · rw [member?_fill_of_not_table hw hkind]
    exact member?_of_not_table hkind

end

/-- The text for a field, if its variable is set and the field is open. -/
def Binding.text? (env : Environment) (b : Binding) (sources : Sources) : Option String :=
  if b.isOpen sources then env.get? b.variableName else none

/-- One field tried, with the fields set so far. -/
def attempt (env : Environment) (x : Layered × Nat) (b : Binding) : Layered × Nat :=
  match b.text? env x.1.sources with
  | some text => (b.apply text x.1, x.2 + 1)
  | none => x

/-- All fields tried in turn, and how many were set. -/
def inTurn (env : Environment) (l : Layered) : Layered × Nat := bindings.foldl env.attempt (l, 0)

variable {env : Environment} {l : Layered} {b b' : Binding} {text : String} {sources : Sources}

theorem text?_insert_of_ne (h : b'.path ≠ b.path) :
    b'.text? env (sources.insert b.path .environment) = b'.text? env sources := by
  rw [Binding.text?, Binding.text?, Binding.isOpen, Binding.isOpen, SortedMap.get?_insert,
    if_neg h]

theorem foldl_attempt {bs : List Binding} {count : Nat} (h : bs.Pairwise (·.path ≠ ·.path)) :
    bs.foldl env.attempt (l, count) =
      let todo := bs.filterMap fun b => (b.text? env l.sources).map (b, ·)
      (fill todo l, count + todo.length) := by
  induction bs generalizing l count with
  | nil => rfl
  | cons b bs ih =>
    obtain ⟨hb, hbs⟩ := List.pairwise_cons.mp h
    rw [List.foldl_cons]
    cases htext : b.text? env l.sources with
    | none =>
      have hskip : env.attempt (l, count) b = (l, count) := by
        rw [attempt, htext]
      rw [hskip, ih hbs, List.filterMap_cons_none (by rw [htext, Option.map_none])]
    | some text =>
      have hset : env.attempt (l, count) b = (b.apply text l, count + 1) := by
        rw [attempt, htext]
      -- what is recorded for this field does not concern the others
      have hothers : ∀ b' ∈ bs, (b'.text? env (b.apply text l).sources).map (b', ·) =
          (b'.text? env l.sources).map (b', ·) := fun b' hb' => by
        rw [Binding.apply, text?_insert_of_ne (hb b' hb').symm]
      rw [hset, ih hbs, List.filterMap_congr hothers,
        List.filterMap_cons_some (by rw [htext, Option.map_some])]
      simp only [List.length_cons, Nat.add_assoc, Nat.add_comm 1]
      rfl

theorem applicable_eq (env : Environment) (sources : Sources) :
    env.applicable sources = bindings.filterMap fun b => (b.text? env sources).map (b, ·) := by
  refine List.filterMap_congr fun b _ => ?_
  rw [Binding.text?]
  split
  · rfl
  · rfl

/-- The fields that are open at first are those that are set in turn. -/
theorem inTurn_eq (env : Environment) (l : Layered) :
    env.inTurn l = (env.fillIn l, (env.applicable l.sources).length) := by
  have hdistinct : bindings.Pairwise (·.path ≠ ·.path) := by decide
  rw [inTurn, foldl_attempt hdistinct, fillIn_eq_fill, applicable_eq]
  simp only [Nat.zero_add]

/-- The field is recorded for the environment now, and was not before. -/
def Fills (env : Environment) (l : Layered) (b : Binding) : Prop :=
  (env.fillIn l).sources.get? b.path = some .environment ∧
    l.sources.get? b.path ≠ some .environment

instance : Decidable (env.Fills l b) := inferInstanceAs (Decidable (_ ∧ _))

theorem isOpen_iff : b.isOpen sources = true ↔
    sources.get? b.path = none ∨ sources.get? b.path = some .defaults := by
  rw [Binding.isOpen]
  cases sources.get? b.path with
  | none => simp
  | some layer => cases layer <;> simp

theorem fills_iff (hb : b ∈ bindings) :
    env.Fills l b ↔ b.isOpen l.sources = true ∧ (env.get? b.variableName).isSome = true := by
  rw [Fills, get?_fillIn hb]
  constructor
  · rintro ⟨hnow, hbefore⟩
    by_contra hkept
    exact hbefore (by rwa [if_neg hkept] at hnow)
  · intro h
    refine ⟨if_pos h, fun hbefore => ?_⟩
    rcases isOpen_iff.mp h.1 with hopen | hopen
    · cases hopen.symm.trans hbefore
    · cases hopen.symm.trans hbefore

theorem mem_applicable_iff_fills :
    (b, text) ∈ env.applicable l.sources ↔
      b ∈ bindings ∧ env.Fills l b ∧ env.get? b.variableName = some text := by
  rw [mem_applicable_iff]
  refine and_congr_right fun hb => ?_
  rw [fills_iff hb, and_assoc]
  refine and_congr_right fun _ => ?_
  constructor
  · exact fun htext => ⟨by rw [htext, Option.isSome_some], htext⟩
  · exact fun h => h.2

theorem length_applicable :
    (env.applicable l.sources).length = (bindings.filter fun b => env.Fills l b).length := by
  rw [applicable_eq, List.length_filterMap_eq_countP, ← List.countP_eq_length_filter]
  refine List.countP_congr fun b hb => ?_
  rw [decide_eq_true_iff, fills_iff hb, Option.isSome_map, Binding.text?]
  split
  · next hopen => simp [hopen]
  · next hclosed => simp [hclosed]

/-- A field that is filled in has its value wherever the tree can hold it. -/
theorem at?_fillIn_of_fills (hb : b ∈ bindings) (hfills : env.Fills l b) :
    ∃ text, env.get? b.variableName = some text ∧
      (CanHold l.tree b.sectionKey → (env.fillIn l).tree.at? b.keys = some (b.valueOf text)) ∧
      (¬ CanHold l.tree b.sectionKey → (env.fillIn l).tree.at? b.keys = none) := by
  obtain ⟨hopen, hset⟩ := (fills_iff hb).mp hfills
  obtain ⟨text, htext⟩ := Option.isSome_iff_exists.mp hset
  exact ⟨text, htext, at?_fillIn_of_canHold hb hopen htext, at?_fill_of_not_canHold⟩

section
variable (h : ∀ b ∈ bindings, env.Fills l b → ¬ b.keys <+: keys)
include h

theorem not_prefix_of_applicable : ∀ x ∈ env.applicable l.sources, ¬ x.1.keys <+: keys := by
  rintro ⟨b, text⟩ hmem
  obtain ⟨hb, hfills, -⟩ := mem_applicable_iff_fills.mp hmem
  exact h b hb hfills

theorem hasTable_fillIn_iff :
    (env.fillIn l).tree.HasTable keys ↔ l.tree.HasTable keys ∨
      ∃ b ∈ bindings, env.Fills l b ∧ keys = [b.sectionKey] ∧ Missing l.tree b.sectionKey := by
  rw [fillIn_eq_fill, hasTable_fill_iff (not_prefix_of_applicable h)]
  refine or_congr_right ?_
  constructor
  · rintro ⟨⟨b, text⟩, hmem, hmade⟩
    obtain ⟨hb, hfills, -⟩ := mem_applicable_iff_fills.mp hmem
    exact ⟨b, hb, hfills, hmade⟩
  · rintro ⟨b, hb, hfills, hmade⟩
    obtain ⟨text, htext, -⟩ := at?_fillIn_of_fills hb hfills
    exact ⟨(b, text), mem_applicable_iff_fills.mpr ⟨hb, hfills, htext⟩, hmade⟩

end

theorem get?_fillIn_of_ne {path : String} (h : ∀ b ∈ bindings, env.Fills l b → path ≠ b.path) :
    (env.fillIn l).sources.get? path = l.sources.get? path := by
  rw [fillIn_eq_fill, get?_fill, if_neg]
  intro hmem
  obtain ⟨⟨b, text⟩, hx, rfl⟩ := List.mem_map.mp hmem
  obtain ⟨hb, hfills, -⟩ := mem_applicable_iff_fills.mp hx
  exact h b hb hfills rfl

/-- What is filled in, beside what is recorded of it. The fields newly recorded are those that were
open and have a variable; trying them in turn comes to the same, and counts just these. Each of them
has the value of its variable where the tree can hold it, and nothing where it cannot. Elsewhere
every value and every table is what it was, but for sections made for these fields, and so is the
source of every other path. -/
theorem fillIn_as_recorded (env : Environment) (l : Layered) :
    (∀ b ∈ bindings, env.Fills l b ↔ (env.get? b.variableName).isSome = true ∧
      (l.sources.get? b.path = none ∨ l.sources.get? b.path = some .defaults)) ∧
    env.inTurn l = (env.fillIn l, (env.applicable l.sources).length) ∧
    (env.applicable l.sources).length = (bindings.filter fun b => env.Fills l b).length ∧
    (∀ b ∈ bindings, env.Fills l b → ∃ text, env.get? b.variableName = some text ∧
      (CanHold l.tree b.sectionKey → (env.fillIn l).tree.at? b.keys = some (b.valueOf text)) ∧
      (¬ CanHold l.tree b.sectionKey → (env.fillIn l).tree.at? b.keys = none)) ∧
    (∀ keys, (∀ b ∈ bindings, env.Fills l b → ¬ b.keys <+: keys) →
      (∀ w, w.isTable = false →
        ((env.fillIn l).tree.at? keys = some w ↔ l.tree.at? keys = some w)) ∧
      ((env.fillIn l).tree.HasTable keys ↔ l.tree.HasTable keys ∨
        ∃ b ∈ bindings, env.Fills l b ∧ keys = [b.sectionKey] ∧ Missing l.tree b.sectionKey)) ∧
    ∀ path, (∀ b ∈ bindings, env.Fills l b → path ≠ b.path) →
      (env.fillIn l).sources.get? path = l.sources.get? path := by
  refine ⟨fun b hb => ?_, inTurn_eq env l, length_applicable,
    fun b hb hfills => at?_fillIn_of_fills hb hfills, fun keys h => ⟨fun w hw => ?_, ?_⟩,
    fun path h => get?_fillIn_of_ne h⟩
  · rw [fills_iff hb, isOpen_iff, and_comm]
  · exact at?_fill_eq_leaf_iff hw (not_prefix_of_applicable h)
  · exact hasTable_fillIn_iff h

def debugVariable : Environment := SortedMap.empty.insert "TOLLGATE_LOG_LEVEL" "debug"

theorem missing_section_is_made :
    let l : Layered := ⟨.table [], .empty⟩
    debugVariable.Fills l levelField ∧
      (debugVariable.fillIn l).tree.at? levelField.keys = some (.string "debug") ∧
      (debugVariable.fillIn l).tree.HasTable ["logging"] := by
  intro l
  obtain ⟨hfills, -, -, hheld, hkept, -⟩ := fillIn_as_recorded debugVariable l
  have hlevel : levelField ∈ bindings := by decide
  have hnew : debugVariable.Fills l levelField := (hfills _ hlevel).mpr ⟨rfl, .inl rfl⟩
  have hmissing : Missing l.tree "logging" := ⟨rfl, rfl⟩
  obtain ⟨text, htext, hvalue, -⟩ := hheld _ hlevel hnew
  obtain rfl : text = "debug" := Option.some.inj (htext.symm.trans rfl)
  refine ⟨hnew, hvalue hmissing.canHold, (hkept ["logging"] ?_).2.mpr (.inr ?_)⟩
  · exact fun b _ _ hshort => absurd hshort.length_le (by simp [Binding.keys])
  · exact ⟨levelField, hlevel, hnew, rfl, hmissing⟩

/-- A section that is a list cannot hold the level, which is recorded and counted all the same. -/
theorem list_swallows_level :
    let l : Layered := ⟨.table [("logging", .array [])], .empty⟩
    debugVariable.Fills l levelField ∧ (debugVariable.inTurn l).2 = 1 ∧
      (debugVariable.fillIn l).tree = l.tree ∧
      (debugVariable.fillIn l).tree.at? levelField.keys = none := by
  refine ⟨by decide, by decide, rfl, by decide⟩

end Environment
end Quorum
