import Quorum.Proofs.Overlay

/-!
# Merged trees, path by path

The value at a path of a merged tree is the upper tree's laid over the lower one's, as far as the
upper tree has any (`Toml.Value.at?_overlay_of_some`). Where it breaks off, what the lower tree has
comes through only between two tables (`Toml.Value.at?_overlay_of_tables`,
`Toml.Value.at?_overlay_of_not_tables`), so a value that is replaced leaves nothing behind
(`Layered.merge_by_paths`).
-/
namespace Quorum
namespace Toml.Value
variable {base top v w : Value} {members tops : List (String × Value)} {key : String}
  {keys before : List String}

mutual
/-- Induction on the tables of a tree. -/
theorem table_induction {motive : Value → Prop} (leaf : ∀ v, v.isTable = false → motive v)
    (node : ∀ members, (∀ m ∈ members, motive m.2) → motive (table members)) :
    (v : Value) → motive v
  | table members => node members (table_induction_members leaf node members)
  | bool _ | integer _ | float _ | string _ | moment _ | array _ => leaf _ rfl
theorem table_induction_members {motive : Value → Prop}
    (leaf : ∀ v, v.isTable = false → motive v)
    (node : ∀ members, (∀ m ∈ members, motive m.2) → motive (table members)) :
    (members : List (String × Value)) → ∀ m ∈ members, motive m.2
  | [] => List.forall_mem_nil _
  | (_, v) :: members => List.forall_mem_cons.mpr
      ⟨table_induction leaf node v, table_induction_members leaf node members⟩
end

theorem at?_append (before keys : List String) (v : Value) :
    v.at? (before ++ keys) = (v.at? before).bind (at? keys) := by
  induction before generalizing v with
  | nil => rfl
  | cons key before ih =>
    simp only [List.cons_append, at?]
    cases v.member? key with
    | none => rfl
    | some w => exact ih w

/-- Where the upper tree has a value, the merged one has what becomes of the lower value under it,
or the upper value alone. -/
theorem at?_overlay_of_some (htop : top.Ordered) (h : top.at? keys = some v) :
    (base.overlay top).at? keys = some (((base.at? keys).map (overlay · v)).getD v) := by
  induction keys generalizing base top with
  | nil =>
    cases h
    rfl
  | cons key keys ih =>
    obtain ⟨w, hw, hv⟩ := Option.bind_eq_some_iff.mp h
    cases top with
    | table tops =>
      obtain ⟨hsorted, hordered⟩ := ordered_table_iff.mp htop
      have hw' : tops.lookup key = some w := hw
      cases base with
      | table members =>
        have hmember : (overlay (table members) (table tops)).member? key =
            some (((members.lookup key).map (overlay · w)).getD w) := by
          rw [overlay, member?, lookup_overlayMembers key hsorted, hw']
        rw [at?, hmember, Option.bind_some, at?, member?]
        cases members.lookup key with
        | none => simpa using hv
        | some old => exact ih (hordered _ (mem_of_lookup_eq_some hw')) hv
      | _ => simpa [overlay, at?, member?, hw'] using hv
    | _ => cases hw

/-- The value at the path is a table. -/
def HasTable (v : Value) (keys : List String) : Prop :=
  ∃ w, v.at? keys = some w ∧ w.isTable = true

theorem HasTable.not_hasLeaf (h : v.HasTable keys) : ¬ v.HasLeaf keys := by
  obtain ⟨w, hw, htable⟩ := h
  rintro ⟨u, hu, hleaf⟩
  cases hw.symm.trans hu
  cases htable.symm.trans hleaf

/-- A value that is no table takes the place of anything, and anything of it. -/
theorem overlay_eq_top (h : base.isTable = false ∨ top.isTable = false) :
    base.overlay top = top := by
  rcases h with h | h
  · exact overlay_of_not_table h
  · cases top with
    | table => cases h
    | _ => rfl

theorem isTable_overlay (h : top.isTable = true) : (base.overlay top).isTable = true := by
  obtain ⟨tops, rfl⟩ := exists_of_isTable h
  cases base with
  | table => rfl
  | _ => rfl

theorem member?_overlay_of_none (htop : top.Ordered) (htable : top.isTable = true)
    (hbase : base.isTable = true) (h : top.member? key = none) :
    (base.overlay top).member? key = base.member? key := by
  obtain ⟨tops, rfl⟩ := exists_of_isTable htable
  obtain ⟨members, rfl⟩ := exists_of_isTable hbase
  have hnone : tops.lookup key = none := h
  rw [overlay, member?, lookup_overlayMembers key (ordered_table_iff.mp htop).1, hnone, member?]

theorem Ordered.at? (hv : v.Ordered) (h : v.at? keys = some w) : w.Ordered := by
  induction keys generalizing v with
  | nil =>
    cases h
    exact hv
  | cons key keys ih =>
    obtain ⟨u, hu, hw⟩ := Option.bind_eq_some_iff.mp h
    cases v with
    | table members => exact ih ((ordered_table_iff.mp hv).2 _ (mem_of_lookup_eq_some hu)) hw
    | _ => cases hu

/-- A leaf of the upper tree wins over whatever lies below it, tables included. -/
theorem at?_overlay_of_leaf (htop : top.Ordered) (h : top.at? keys = some v)
    (hleaf : v.isTable = false) : (base.overlay top).at? keys = some v := by
  rw [at?_overlay_of_some htop h]
  cases base.at? keys with
  | none => rfl
  | some old => exact congrArg some (overlay_eq_top (.inr hleaf))

theorem HasTable.overlay (htop : top.Ordered) (h : top.HasTable keys) :
    (base.overlay top).HasTable keys := by
  obtain ⟨v, hv, htable⟩ := h
  refine ⟨_, at?_overlay_of_some htop hv, ?_⟩
  cases base.at? keys with
  | none => exact htable
  | some old => exact isTable_overlay htable

theorem member?_eq_none (hv : top.at? before = some v) (hnone : top.at? (before ++ [key]) = none) :
    v.member? key = none := by
  rw [at?_append, hv] at hnone
  simpa [Value.at?] using hnone

/-- Where both are tables and the upper one has no such member, the lower one is seen through. -/
theorem at?_overlay_of_tables (htop : top.Ordered) (htable : top.HasTable before)
    (hbase : base.HasTable before) (hnone : top.at? (before ++ [key]) = none) :
    (base.overlay top).at? (before ++ key :: keys) = base.at? (before ++ key :: keys) := by
  obtain ⟨v, hv, htable⟩ := htable
  obtain ⟨old, hold, hbase⟩ := hbase
  have hsame : (old.overlay v).member? key = old.member? key :=
    member?_overlay_of_none (htop.at? hv) htable hbase (member?_eq_none hv hnone)
  rw [at?_append, at?_append, at?_overlay_of_some htop hv, hold]
  simp only [Option.map_some, Option.getD_some, Option.bind_some, Value.at?, hsame]

/-- Where one of the two is no table, the upper value hides everything below it, so that a path on
which the upper one ends is a dead end. -/
theorem at?_overlay_of_not_tables (htop : top.Ordered) (hv : top.at? before = some v)
    (hnone : top.at? (before ++ [key]) = none)
    (h : ¬ (top.HasTable before ∧ base.HasTable before)) :
    (base.overlay top).at? (before ++ key :: keys) = none := by
  have hsame : ((base.at? before).map (overlay · v)).getD v = v := by
    cases hbase : base.at? before with
    | none => rfl
    | some old =>
      refine overlay_eq_top ?_
      cases hold : old.isTable with
      | false => exact .inl rfl
      | true =>
        right
        cases hkind : v.isTable with
        | false => rfl
        | true => exact absurd ⟨⟨v, hv, hkind⟩, old, hbase, hold⟩ h
  rw [at?_append, at?_overlay_of_some htop hv, hsame, Option.bind_some, Value.at?,
    member?_eq_none hv hnone, Option.bind_none]

/-- The longest path in front of another one at which the tree has a value. -/
structure Reaches (v : Value) (keys before : List String) : Prop where
  below : before <+: keys
  proper : before ≠ keys
  has : ∃ w, v.at? before = some w
  longest : ∀ other, other <+: keys → other ≠ keys → (∃ w, v.at? other = some w) → other <+: before

theorem exists_at?_of_prefix (h : before <+: keys) (hw : v.at? keys = some w) :
    ∃ u, v.at? before = some u := by
  obtain ⟨rest, rfl⟩ := h
  rw [at?_append] at hw
  obtain ⟨u, hu, -⟩ := Option.bind_eq_some_iff.mp hw
  exact ⟨u, hu⟩

/-- A tree that has nothing at a path breaks off at some key of it. -/
theorem exists_break (h : v.at? keys = none) : ∃ before key rest, keys = before ++ key :: rest ∧
    (∃ w, v.at? before = some w) ∧ v.at? (before ++ [key]) = none := by
  induction keys generalizing v with
  | nil => cases h
  | cons key keys ih =>
    cases hmember : v.member? key with
    | none => exact ⟨[], key, keys, rfl, ⟨v, rfl⟩, by rw [List.nil_append, Value.at?, hmember]; rfl⟩
    | some w =>
      rw [Value.at?, hmember, Option.bind_some] at h
      obtain ⟨before, k, rest, rfl, ⟨u, hu⟩, hnone⟩ := ih h
      refine ⟨key :: before, k, rest, rfl, ⟨u, ?_⟩, ?_⟩
      · rwa [Value.at?, hmember, Option.bind_some]
      · rwa [List.cons_append, Value.at?, hmember, Option.bind_some]

/-- Where a path breaks off is how far the tree reaches along it. -/
theorem reaches_of_break {rest : List String} (hw : v.at? before = some w)
    (hnone : v.at? (before ++ [key]) = none) : v.Reaches (before ++ key :: rest) before := by
  refine ⟨List.prefix_append before _, by simp, ⟨w, hw⟩, fun other hother _ ⟨u, hu⟩ => ?_⟩
  have hbreak : before ++ [key] <+: before ++ key :: rest := by
    simp [List.prefix_append_right_inj]
  have hshort : other <+: before ++ [key] := by
    rcases List.prefix_or_prefix_of_prefix hother hbreak with hshort | hlong
    · exact hshort
    · obtain ⟨x, hx⟩ := exists_at?_of_prefix hlong hu
      cases hnone.symm.trans hx
  rcases List.prefix_concat_iff.mp hshort with rfl | hshort
  · cases hnone.symm.trans hu
  · exact hshort

theorem overlayMembers_eq_self (hmembers : (table members).Ordered) (htops : (table tops).Ordered)
    (h : ∀ key v, tops.lookup key = some v → ∃ w, members.lookup key = some w ∧ w.overlay v = w) :
    overlayMembers members tops = members := by
  have hmerged : (table (overlayMembers members tops)).Ordered := hmembers.overlay htops
  have hsame : (⟨_, (ordered_table_iff.mp hmerged).1⟩ : SortedMap Value) =
      ⟨members, (ordered_table_iff.mp hmembers).1⟩ := by
    refine SortedMap.ext_get? fun key => ?_
    change (overlayMembers members tops).lookup key = members.lookup key
    rw [lookup_overlayMembers key (ordered_table_iff.mp htops).1]
    cases hkey : tops.lookup key with
    | none => rfl
    | some v =>
      obtain ⟨w, hw, hkept⟩ := h key v hkey
      simp [hw, hkept]
  exact congrArg SortedMap.entries hsame

/-- A layer that is laid over twice has no effect the second time. The induction is on the upper
tree, whose tables the merged tree already agrees with. -/
theorem overlay_overlay (hbase : base.Ordered) (htop : top.Ordered) :
    (base.overlay top).overlay top = base.overlay top := by
  induction top using table_induction generalizing base with
  | leaf v hv => rw [overlay_eq_top (.inr hv), overlay_eq_top (.inr hv)]
  | node tops ih =>
    have hordered := (ordered_table_iff.mp htop).2
    have hself : ∀ key v, tops.lookup key = some v → v.overlay v = v := fun key v hv => by
      -- over something that is no table, the tree itself is all there is
      have hmem := mem_of_lookup_eq_some hv
      have hlow : (bool true).overlay v = v := overlay_of_not_table rfl
      have hagain : ((bool true).overlay v).overlay v = (bool true).overlay v :=
        ih _ hmem trivial (hordered _ hmem)
      rwa [hlow] at hagain
    cases hkind : base.isTable with
    | false =>
      rw [overlay_of_not_table hkind]
      exact congrArg table <|
        overlayMembers_eq_self htop htop fun key v hv => ⟨v, hv, hself key v hv⟩
    | true =>
      obtain ⟨members, rfl⟩ := exists_of_isTable hkind
      refine congrArg table (overlayMembers_eq_self (hbase.overlay htop) htop fun key v hv => ?_)
      rw [lookup_overlayMembers key (ordered_table_iff.mp htop).1, hv]
      refine ⟨_, rfl, ?_⟩
      have hmem := mem_of_lookup_eq_some hv
      cases hold : members.lookup key with
      | none => exact hself key v hv
      | some old =>
        have hlower : old.Ordered :=
          (ordered_table_iff.mp hbase).2 _ (mem_of_lookup_eq_some hold)
        exact ih _ hmem hlower (hordered _ hmem)

end Toml.Value

namespace Layered
open Toml Value

/-- A merged tree, path by path. What the upper tree has is there, a table as some table. Where it
has nothing, the lower tree is seen if both have tables as far as the upper one reaches; otherwise
nothing is left of it. Laid over once more, the same tree changes nothing. -/
theorem merge_by_paths {l : Layered} {top : Value} (hl : l.tree.Ordered) (htop : top.Ordered)
    (layer : Layer) (path : String) :
    (∀ keys,
      (∀ v, top.at? keys = some v → v.isTable = false →
        (l.merge layer path top).tree.at? keys = some v) ∧
      (top.HasTable keys → (l.merge layer path top).tree.HasTable keys) ∧
      (top.at? keys = none → ∃ before, top.Reaches keys before ∧
        (top.HasTable before ∧ l.tree.HasTable before →
          (l.merge layer path top).tree.at? keys = l.tree.at? keys) ∧
        (¬ (top.HasTable before ∧ l.tree.HasTable before) →
          (l.merge layer path top).tree.at? keys = none))) ∧
    ∀ layer' path', ((l.merge layer path top).merge layer' path' top).tree =
      (l.merge layer path top).tree := by
  refine ⟨fun keys => ⟨fun v hv hleaf => at?_overlay_of_leaf htop hv hleaf,
    fun htable => htable.overlay htop, fun hnone => ?_⟩, fun _ _ => overlay_overlay hl htop⟩
  obtain ⟨before, key, rest, rfl, ⟨w, hw⟩, hbreak⟩ := exists_break hnone
  exact ⟨before, reaches_of_break hw hbreak,
    fun ⟨htable, hbase⟩ => at?_overlay_of_tables htop htable hbase hbreak,
    fun htables => at?_overlay_of_not_tables htop hw hbreak htables⟩

def compactLogging : Value :=
  .table [("logging", .table [("format", .string "compact"), ("level", .string "info")])]

def debugLogging : Value := .table [("logging", .table [("level", .string "debug")])]

theorem ordered_compactLogging : compactLogging.Ordered := by
  simp only [compactLogging, Ordered, OrderedMembers, and_true]
  decide

theorem ordered_debugLogging : debugLogging.Ordered := by
  simp [debugLogging, Ordered, OrderedMembers]

/-- A file that sets one field of a section leaves its siblings to the layers below. -/
theorem debug_level_keeps_format :
    compactLogging.Ordered ∧ debugLogging.Ordered ∧
    (Layered.merge ⟨compactLogging, .empty⟩ .file "" debugLogging).tree.at? ["logging", "level"] =
      some (.string "debug") ∧
    (Layered.merge ⟨compactLogging, .empty⟩ .file "" debugLogging).tree.at? ["logging", "format"] =
      some (.string "compact") := by
  obtain ⟨hpaths, -⟩ := merge_by_paths (l := ⟨compactLogging, .empty⟩) ordered_compactLogging
    ordered_debugLogging .file ""
  refine ⟨ordered_compactLogging, ordered_debugLogging,
    (hpaths ["logging", "level"]).1 _ rfl rfl, ?_⟩
  obtain ⟨before, hreach, hkept, -⟩ := (hpaths ["logging", "format"]).2.2 rfl
  have hlogging : ["logging"] <+: before :=
    hreach.longest ["logging"] (by decide) (by decide) ⟨_, rfl⟩
  have hbelow : before <+: ["logging"] ++ ["format"] := hreach.below
  have hshort : before <+: ["logging"] :=
    (List.prefix_concat_iff.mp hbelow).resolve_left hreach.proper
  obtain rfl : before = ["logging"] := hshort.eq_of_length_le hlogging.length_le
  exact hkept ⟨⟨_, rfl, rfl⟩, _, rfl, rfl⟩

end Layered
end Quorum
