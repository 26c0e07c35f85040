import Quorum.Proofs.Overlay
import Quorum.Settings.Environment

/-!
# What the environment fills in

A value that is put into a section is found there and everything else stays where it was
(`Environment.at?_put_self`, `Environment.at?_put_of_ne`); a section that is no table does not
change. No two variables set one field, so the value of a bound field and its source depend on its
own variable only, whatever the others do (`Environment.get?_fillIn`,
`Environment.at?_fillIn_of_open`, `Environment.at?_fillIn_of_kept`).
-/
namespace Quorum
open Toml Toml.Value

namespace Environment
variable {s k s' k' : String} {v w tree : Value} {fields : List (String × Value)}

theorem at?_pair (v : Value) (s k : String) :
    v.at? [s, k] = (v.member? s).bind (Value.member? k) := by
  simp only [at?]
  cases v.member? s with
  | none => rfl
  | some w => cases hw : w.member? k <;> simp [hw]

theorem member?_put_of_ne (h : s' ≠ s) : (put s k v tree).member? s' = tree.member? s' := by
  cases tree with
  | table members =>
    simp only [put]
    split
    · simp [member?, lookup_putEntry, h]
    · simp [member?, lookup_putEntry, h]
    · rfl
  | _ => rfl

/-- What becomes of the section itself. -/
theorem member?_put_self {members : List (String × Value)} :
    (put s k v (table members)).member? s =
      match members.lookup s with
      | none => some (table [(k, v)])
      | some (table fields) => some (table (putEntry k v fields))
      | some w => some w := by
  cases hlookup : members.lookup s with
  | none => simp [put, hlookup, member?, lookup_putEntry]
  | some w =>
    cases w with
    | table fields => simp [put, hlookup, member?, lookup_putEntry]
    | _ => simp [put, hlookup, member?]

/-- The tree has a table for the section, or room for one. -/
structure CanHold (tree : Value) (s : String) : Prop where
  root : tree.isTable = true
  inner : ∀ w, tree.member? s = some w → w.isTable = true

theorem canHold_of_member? (h : tree.member? s = some (table fields)) : CanHold tree s := by
  cases tree with
  | table members =>
    refine ⟨rfl, fun w hw => ?_⟩
    cases h.symm.trans hw
    rfl
  | _ => cases h

/-- A value that is put into a section is found there, if the section is a table or can be made
one. -/
theorem at?_put_self (h : CanHold tree s) : (put s k v tree).at? [s, k] = some v := by
  obtain ⟨members, rfl⟩ := exists_of_isTable h.root
  rw [at?_pair, member?_put_self]
  cases hlookup : members.lookup s with
  | none => simp [member?]
  | some w =>
    obtain ⟨fields, rfl⟩ := exists_of_isTable (h.inner w hlookup)
    simp [member?, lookup_putEntry]

/-- Putting a value moves nothing else among the fields that are two keys deep. -/
theorem at?_put_of_ne (h : [s', k'] ≠ [s, k]) :
    (put s k v tree).at? [s', k'] = tree.at? [s', k'] := by
  rw [at?_pair, at?_pair]
  by_cases hs : s' = s
  · subst hs
    have hk : k' ≠ k := by simpa using h
    cases tree with
    | table members =>
      rw [member?_put_self]
      cases hlookup : members.lookup s' with
      | none => simp [member?, hlookup, lookup_cons_if, hk]
      | some w =>
        cases w with
        | table fields => simp [member?, hlookup, lookup_putEntry, hk]
        | _ => simp [member?, hlookup]
    | _ => rfl
  · rw [member?_put_of_ne hs]

/-- A tree that is no table takes nothing in. -/
theorem put_of_not_table (h : tree.isTable = false) : put s k v tree = tree := by
  cases tree with
  | table => cases h
  | _ => rfl

theorem exists_member?_put (h : tree.member? s' = some (table fields)) :
    ∃ fields', (put s k v tree).member? s' = some (table fields') := by
  by_cases hs : s' = s
  · subst hs
    cases tree with
    | table members =>
      rw [member?_put_self, show members.lookup s' = some (table fields) from h]
      exact ⟨_, rfl⟩
    | _ => cases h
  · rw [member?_put_of_ne hs]
    exact ⟨fields, h⟩

theorem isTable_put : (put s k v tree).isTable = tree.isTable := by
  cases tree with
  | table members =>
    simp only [put]
    split <;> rfl
  | _ => rfl

theorem CanHold.put (h : CanHold tree s') : CanHold (put s k v tree) s' := by
  refine ⟨isTable_put.trans h.root, fun w hw => ?_⟩
  by_cases hs : s' = s
  · subst hs
    obtain ⟨members, rfl⟩ := exists_of_isTable h.root
    rw [member?_put_self] at hw
    cases hlookup : members.lookup s' with
    | none =>
      rw [hlookup] at hw
      cases hw
      rfl
    | some u =>
      obtain ⟨fields, rfl⟩ := exists_of_isTable (h.inner u hlookup)
      rw [hlookup] at hw
      cases hw
      rfl
  · rw [member?_put_of_ne hs] at hw
    exact h.inner w hw

theorem member?_put_of_not_table (h : tree.member? s' = some w) (hw : w.isTable = false) :
    (put s k v tree).member? s' = some w := by
  by_cases hs : s' = s
  · subst hs
    cases tree with
    | table members =>
      rw [member?_put_self, show members.lookup s' = some w from h]
      cases w with
      | table => cases hw
      | _ => rfl
    | _ => cases h
  · rw [member?_put_of_ne hs, h]

theorem ordered_put (hv : v.Ordered) (h : tree.Ordered) : (put s k v tree).Ordered := by
  cases tree with
  | table members =>
    obtain ⟨hsorted, hmembers⟩ := ordered_table_iff.mp h
    have put_ordered {fields : List (String × Value)} (hfields : (table fields).Ordered) :
        (table (putEntry s (table fields) members)).Ordered := by
      refine ordered_table_iff.mpr ⟨putEntry_sorted _ _ hsorted, fun m hm => ?_⟩
      rcases mem_putEntry hm with rfl | hm
      · exact hfields
      · exact hmembers m hm
    simp only [put]
    split
    · exact put_ordered (ordered_table_iff.mpr ⟨by simp, by simpa using hv⟩)
    · next fields hlookup =>
      obtain ⟨hsorted, hfields⟩ := ordered_table_iff.mp (hmembers _ (mem_of_lookup_eq_some hlookup))
      refine put_ordered (ordered_table_iff.mpr ⟨putEntry_sorted _ _ hsorted, fun m hm => ?_⟩)
      rcases mem_putEntry hm with rfl | hm
      · exact hv
      · exact hfields m hm
    · exact h
  | _ => exact h

def Binding.keys (b : Binding) : List String := [b.sectionKey, b.fieldKey]

/-- The variables that apply are those of fields no file has set. The list is made before anything
is filled in, so that no variable can shut out another. -/
theorem mem_applicable_iff {env : Environment} {sources : Sources} {b : Binding} {text : String} :
    (b, text) ∈ env.applicable sources ↔
      b ∈ bindings ∧ b.isOpen sources = true ∧ env.get? b.variableName = some text := by
  simp only [applicable, List.mem_filterMap, Option.ite_none_right_eq_some,
    Option.map_eq_some_iff, Prod.mk.injEq]
  constructor
  · rintro ⟨b', hb, hopen, text', htext, rfl, rfl⟩
    exact ⟨hb, hopen, htext⟩
  · rintro ⟨hb, hopen, htext⟩
    exact ⟨b, hb, hopen, text, htext, rfl, rfl⟩

def timeoutField : Binding :=
  ⟨"TOLLGATE_DEFAULT_TIMEOUT_SECS", Settings.approvalKey, Settings.timeoutKey, true⟩

def retriesField : Binding :=
  ⟨"TOLLGATE_MAX_CONFLICT_RETRIES", Settings.clientKey, Settings.retriesKey, true⟩

def levelField : Binding := ⟨"TOLLGATE_LOG_LEVEL", Settings.loggingKey, Settings.levelKey, false⟩

def formatField : Binding := ⟨"TOLLGATE_LOG_FORMAT", Settings.loggingKey, Settings.formatKey, false⟩

/-- The fields that variables set, for proofs by cases on them. -/
theorem eq_of_mem_bindings {b : Binding} (h : b ∈ bindings) :
    b = timeoutField ∨ b = retriesField ∨ b = levelField ∨ b = formatField := by
  simp only [bindings, List.mem_cons, List.not_mem_nil, or_false] at h
  exact h

/-- No field is set by two variables. -/
theorem eq_of_keys_eq {b b' : Binding} (hb : b ∈ bindings) (hb' : b' ∈ bindings)
    (h : b.keys = b'.keys) : b = b' := by
  have hdistinct : ∀ b ∈ bindings, ∀ b' ∈ bindings, b.keys = b'.keys → b = b' := by
    decide
  exact hdistinct b hb b' hb' h

/-- No two variables set one field, and no two fields have one path. -/
theorem eq_of_path_eq {b b' : Binding} (hb : b ∈ bindings) (hb' : b' ∈ bindings)
    (h : b.path = b'.path) : b = b' := by
  have hdistinct : ∀ b ∈ bindings, ∀ b' ∈ bindings, b.path = b'.path → b = b' := by
    decide
  exact hdistinct b hb b' hb' h

theorem ordered_valueOf (b : Binding) (text : String) : (b.valueOf text).Ordered := by
  unfold Binding.valueOf
  split <;> trivial

/-- Fields filled in with texts, one after the other. It is what `fillIn` does once the open fields
have been settled. -/
def fill (todo : List (Binding × String)) (l : Layered) : Layered :=
  todo.foldl (fun l (b, text) => b.apply text l) l

section
variable {todo : List (Binding × String)} {l : Layered} {b : Binding} {text : String}

/-- A source is recorded for every variable in the list, whether or not its value found a place in
the tree. -/
theorem get?_fill (path : String) :
    (fill todo l).sources.get? path =
      if path ∈ todo.map (·.1.path) then some .environment else l.sources.get? path := by
  induction todo generalizing l with
  | nil => rfl
  | cons x todo ih =>
    change (fill todo (x.1.apply x.2 l)).sources.get? path = _
    rw [ih, Binding.apply, SortedMap.get?_insert, List.map_cons]
    by_cases hpath : path = x.1.path
    · simp [hpath]
    · simp only [hpath, if_false, List.mem_cons, false_or]

theorem fill_tree_of_not_table (h : l.tree.isTable = false) : (fill todo l).tree = l.tree := by
  induction todo generalizing l with
  | nil => rfl
  | cons x todo ih =>
    have hx : (x.1.apply x.2 l).tree = l.tree := put_of_not_table h
    exact (ih (hx ▸ h)).trans hx

theorem ordered_fill (h : l.tree.Ordered) : (fill todo l).tree.Ordered := by
  induction todo generalizing l with
  | nil => exact h
  | cons x todo ih => exact ih (ordered_put (ordered_valueOf _ _) h)

theorem exists_member?_fill (h : l.tree.member? s = some (table fields)) :
    ∃ fields', (fill todo l).tree.member? s = some (table fields') := by
  induction todo generalizing l fields with
  | nil => exact ⟨fields, h⟩
  | cons x todo ih =>
    obtain ⟨fields', h'⟩ := exists_member?_put h
    exact ih (l := x.1.apply x.2 l) h'

theorem member?_fill_of_not_table (h : l.tree.member? s = some w) (hw : w.isTable = false) :
    (fill todo l).tree.member? s = some w := by
  induction todo generalizing l with
  | nil => exact h
  | cons x todo ih => exact ih (l := x.1.apply x.2 l) (member?_put_of_not_table h hw)

theorem at?_fill_of_ne (h : ∀ x ∈ todo, x.1.keys ≠ b.keys) :
    (fill todo l).tree.at? b.keys = l.tree.at? b.keys := by
  induction todo generalizing l with
  | nil => rfl
  | cons x todo ih =>
    obtain ⟨hx, htodo⟩ := List.forall_mem_cons.mp h
    exact (ih htodo).trans (at?_put_of_ne hx.symm)

/-- A field that is filled in once has the value of its text. -/
theorem at?_fill_of_mem (hmem : (b, text) ∈ todo)
    (honly : ∀ x ∈ todo, x.1.keys = b.keys → x = (b, text))
    (hhold : CanHold l.tree b.sectionKey) :
    (fill todo l).tree.at? b.keys = some (b.valueOf text) := by
  induction todo generalizing l with
  | nil => cases hmem
  | cons x todo ih =>
    obtain ⟨hx, htodo⟩ := List.forall_mem_cons.mp honly
    change (fill todo (x.1.apply x.2 l)).tree.at? b.keys = _
    by_cases hlater : (b, text) ∈ todo
    · -- what is filled in first does not matter, as long as the section stays a table
      exact ih hlater htodo hhold.put
    · obtain rfl : (b, text) = x := by simpa [hlater] using hmem
      have hothers : ∀ y ∈ todo, y.1.keys ≠ b.keys := fun y hy hkeys =>
        hlater (htodo y hy hkeys ▸ hy)
      rw [at?_fill_of_ne hothers]
      exact at?_put_self hhold

end

variable {env : Environment} {l : Layered} {b : Binding} {text : String}

/-- Filling in goes through the applicable variables one after the other. -/
theorem fillIn_eq_fill : env.fillIn l = fill (env.applicable l.sources) l := rfl

/-- A bound field is recorded for the environment if it is open and its variable is set. -/
theorem get?_fillIn (hb : b ∈ bindings) :
    (env.fillIn l).sources.get? b.path =
      if b.isOpen l.sources = true ∧ (env.get? b.variableName).isSome = true then
        some .environment
      else l.sources.get? b.path := by
  rw [fillIn_eq_fill, get?_fill]
  refine ite_congr (propext ?_) (fun _ => rfl) (fun _ => rfl)
  simp only [List.mem_map, Prod.exists, mem_applicable_iff, Option.isSome_iff_exists]
  constructor
  · rintro ⟨b', text, ⟨hb', hopen, htext⟩, hpath⟩
    obtain rfl := eq_of_path_eq hb' hb hpath
    exact ⟨hopen, text, htext⟩
  · rintro ⟨hopen, text, htext⟩
    exact ⟨b, text, ⟨hb, hopen, htext⟩, rfl⟩

theorem at?_fillIn_of_canHold (hb : b ∈ bindings) (hopen : b.isOpen l.sources = true)
    (htext : env.get? b.variableName = some text) (hhold : CanHold l.tree b.sectionKey) :
    (env.fillIn l).tree.at? b.keys = some (b.valueOf text) := by
  refine at?_fill_of_mem (mem_applicable_iff.mpr ⟨hb, hopen, htext⟩) ?_ hhold
  rintro ⟨b', text'⟩ hmem hkeys
  obtain ⟨hb', -, htext'⟩ := mem_applicable_iff.mp hmem
  obtain rfl := eq_of_keys_eq hb' hb hkeys
  rw [htext] at htext'
  cases htext'
  rfl

theorem at?_fillIn_of_open (hb : b ∈ bindings) (hopen : b.isOpen l.sources = true)
    (htext : env.get? b.variableName = some text)
    (hsection : l.tree.member? b.sectionKey = some (table fields)) :
    (env.fillIn l).tree.at? b.keys = some (b.valueOf text) :=
  at?_fillIn_of_canHold hb hopen htext (canHold_of_member? hsection)

/-- A field whose variable does not apply is left as the layers have it. -/
theorem at?_fillIn_of_kept (hb : b ∈ bindings)
    (hkept : b.isOpen l.sources = false ∨ env.get? b.variableName = none) :
    (env.fillIn l).tree.at? b.keys = l.tree.at? b.keys := by
  refine at?_fill_of_ne ?_
  rintro ⟨b', text⟩ hmem hkeys
  obtain ⟨hb', hopen, htext⟩ := mem_applicable_iff.mp hmem
  obtain rfl := eq_of_keys_eq hb' hb hkeys
  rcases hkept with hclosed | hunset
  · rw [hopen] at hclosed
    cases hclosed
  · rw [htext] at hunset
    cases hunset

end Environment
end Quorum
