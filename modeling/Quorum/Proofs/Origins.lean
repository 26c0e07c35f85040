import Mathlib.Data.List.Induction
import Quorum.Proofs.Merging
import Quorum.Proofs.Precedence

/-!
# Where the values of a merged tree come from

Sources are kept apart from the tree, and each merge records only what it decides: it neither
forgets a value that it takes away nor looks into a table that it puts in the place of something
else. So the sources describe a path as long as tables are laid over tables there and other values
over other values (`Layered.described_merge_iff`), and over a whole run of merges just that long
(`Layered.described_while_undisturbed`). What becomes of them otherwise is seen in
`Layered.shapes_disturb_sources`.
-/
namespace Quorum
open Toml Toml.Value

namespace Toml.Value
variable {base top v w : Value} {keys before : List String} {key : String}

theorem hasTable_of_at? (h : v.at? (before ++ key :: keys) = some w) : v.HasTable before := by
  rw [at?_append] at h
  obtain ⟨u, hu, hw⟩ := Option.bind_eq_some_iff.mp h
  refine ⟨u, hu, ?_⟩
  cases u with
  | table => rfl
  | _ => cases hw

/-- A value stands in tables only. -/
theorem leads_of_at? (h : v.at? keys = some w) : v.Leads keys := by
  rintro before ⟨rest, rfl⟩ hne
  obtain ⟨key, rest, rfl⟩ := List.exists_cons_of_ne_nil fun hnil : rest = [] => hne (by simp [hnil])
  exact (hasTable_of_at? h).not_hasLeaf

/-- The values of a merged tree that are no tables come from the upper tree, or from the lower one
where the upper tree has nothing at or on the way to them. -/
theorem at?_overlay_eq_leaf_iff (htop : top.Ordered) (hv : v.isTable = false) :
    (base.overlay top).at? keys = some v ↔
      top.at? keys = some v ∨ top.at? keys = none ∧ top.Leads keys ∧ base.at? keys = some v := by
  induction keys generalizing base top with
  | nil =>
    simp only [Value.at?, Option.some.injEq, reduceCtorEq, false_and, or_false]
    cases hkind : top.isTable with
    | false => rw [overlay_eq_top (.inr hkind)]
    | true =>
      have hne : ∀ {u : Value}, u.isTable = true → u ≠ v := by
        rintro u hu rfl
        cases hu.symm.trans hv
      exact iff_of_false (hne (isTable_overlay hkind)) (hne hkind)
  | cons key keys ih =>
    cases hkind : top.isTable with
    | false =>
      rw [overlay_eq_top (.inr hkind)]
      exact (or_iff_left fun h => not_leads_of_not_table hkind h.2.1).symm
    | true =>
      obtain ⟨tops, rfl⟩ := exists_of_isTable hkind
      obtain ⟨hsorted, hordered⟩ := ordered_table_iff.mp htop
      cases base with
      | table members =>
        rw [leads_cons_iff]
        simp only [overlay, Value.at?, member?, lookup_overlayMembers key hsorted]
        cases hkey : tops.lookup key with
        | none => simp
        | some w =>
          have hw := hordered _ (mem_of_lookup_eq_some hkey)
          cases members.lookup key with
          | none => simp
          | some old => simpa using ih hw
      | _ => simp [overlay, Value.at?, member?]

end Toml.Value

theorem pathText_ne_empty {path : String} (h : path ≠ "") (keys : List String) :
    pathText path keys ≠ "" := by
  induction keys generalizing path with
  | nil => exact h
  | cons key keys ih =>
    have hjoin : joinPath path key ≠ "" := by
      rw [joinPath, if_neg h]
      simp [h]
    exact ih hjoin

theorem pathText_eq_iff {keys keys' : List String} (h : ∀ key ∈ keys, PlainKey key)
    (h' : ∀ key ∈ keys', PlainKey key) :
    pathText "" keys = pathText "" keys' ↔ keys = keys' := by
  have hempty : ∀ {keys : List String}, (∀ key ∈ keys, PlainKey key) → keys ≠ [] →
      pathText "" keys ≠ "" := by
    rintro (_ | ⟨key, keys⟩) hplain hne
    · exact absurd rfl hne
    · exact pathText_ne_empty (hplain key List.mem_cons_self).1 keys
  refine ⟨fun htext => ?_, congrArg _⟩
  by_cases hne : keys = []
  · by_contra hother
    exact hempty h' (hne ▸ Ne.symm hother) (htext.symm.trans (by rw [hne]; rfl))
  · by_cases hne' : keys' = []
    · exact absurd (htext.trans (by rw [hne']; rfl)) (hempty h hne)
    · exact eq_of_pathText_eq hne hne' h h' htext

instance (key : String) : Decidable (PlainKey key) := inferInstanceAs (Decidable (_ ∧ _))

/-- Of some trees, the last one with a value at the path that is no table has this value there. -/
def LastSupply (trees : List (Layer × Value)) (keys : List String) (v : Value) (layer : Layer) :
    Prop :=
  ∃ before tree after, trees = before ++ (layer, tree) :: after ∧ tree.at? keys = some v ∧
    ∀ t ∈ after, ¬ t.2.HasLeaf keys

/-- Neither tree has something in the way of a value of the other: what is laid over a value that is
no table is none either, and no such value stands in front of one. -/
structure Undisturbed (base top : Value) (keys : List String) : Prop where
  kept : base.HasLeaf keys → top.Leads keys ∧ ¬ top.HasTable keys
  reached : top.HasLeaf keys → base.Leads keys

namespace Layered

/-- The sources say of the path what the tree has there: nothing, if there is no value or a table,
and otherwise the layer that the value comes from. -/
structure Described (l : Layered) (trees : List (Layer × Value)) (keys : List String) : Prop where
  leaf : ∀ v, l.tree.at? keys = some v → v.isTable = false →
    ∃ layer, LastSupply trees keys v layer ∧ l.sources.get? (pathText "" keys) = some layer
  other : ¬ l.tree.HasLeaf keys → l.sources.get? (pathText "" keys) = none

variable {l : Layered} {trees : List (Layer × Value)} {layer : Layer} {top v : Value}
  {keys : List String}

theorem get?_merge (layer : Layer) (htop : top.Ordered) (hplain : Settings.PlainKeys top)
    (hkeys : ∀ key ∈ keys, PlainKey key) :
    (l.merge layer "" top).sources.get? (pathText "" keys) =
      if keys ∈ decisions l.tree top then some layer else l.sources.get? (pathText "" keys) := by
  have hmem : pathText "" keys ∈ (decisions l.tree top).map (pathText "") ↔
      keys ∈ decisions l.tree top := by
    rw [List.mem_map]
    constructor
    · rintro ⟨keys', hmem, htext⟩
      obtain ⟨-, w, hw, -⟩ := (mem_decisions_iff htop).mp hmem
      rwa [← (pathText_eq_iff (hplain keys' w hw) hkeys).mp htext]
    · exact fun hmem => ⟨keys, hmem, rfl⟩
  rw [merge, recordOverlay_eq, Sources.get?_record, if_congr hmem rfl rfl]

section
variable (htop : top.Ordered) (hplain : Settings.PlainKeys top)
  (hkeys : ∀ key ∈ keys, PlainKey key)
include htop hplain hkeys

theorem described_of_leaf (hv : top.at? keys = some v) (hleaf : v.isTable = false)
    (hleads : l.tree.Leads keys) :
    (l.merge layer "" top).Described (trees ++ [(layer, top)]) keys := by
  have hmerged : (l.merge layer "" top).tree.at? keys = some v :=
    (at?_overlay_eq_leaf_iff htop hleaf).mpr (.inl hv)
  refine ⟨fun w hw _ => ⟨layer, ⟨trees, top, [], rfl, ?_, nofun⟩, ?_⟩, fun hnone => ?_⟩
  · rwa [← hw, hmerged]
  · rw [get?_merge layer htop hplain hkeys,
      if_pos ((mem_decisions_iff htop).mpr ⟨hleads, v, hv, .inl hleaf⟩)]
  · exact absurd ⟨v, hmerged, hleaf⟩ hnone

variable (h : l.Described trees keys)
include h

/-- A value that the tree below stands in the way of is not recorded. -/
theorem not_described_of_leaf (hv : top.at? keys = some v) (hleaf : v.isTable = false)
    (hleads : ¬ l.tree.Leads keys) :
    ¬ (l.merge layer "" top).Described (trees ++ [(layer, top)]) keys := by
  intro hdescribed
  have hmerged : (l.merge layer "" top).tree.at? keys = some v :=
    (at?_overlay_eq_leaf_iff htop hleaf).mpr (.inl hv)
  obtain ⟨_, -, hget⟩ := hdescribed.leaf v hmerged hleaf
  have hbelow : ¬ l.tree.HasLeaf keys := fun ⟨_, hw, _⟩ => hleads (leads_of_at? hw)
  rw [get?_merge layer htop hplain hkeys,
    if_neg fun hmem => hleads ((mem_decisions_iff htop).mp hmem).1, h.other hbelow] at hget
  cases hget

/-- A table is recorded if it takes the place of something else. -/
theorem described_iff_of_table (htable : top.HasTable keys) :
    (l.merge layer "" top).Described (trees ++ [(layer, top)]) keys ↔ ¬ l.tree.HasLeaf keys := by
  obtain ⟨w, hw, hkind⟩ := htable
  have hmerged : ¬ (l.merge layer "" top).tree.HasLeaf keys := by
    have htable : (l.tree.overlay top).HasTable keys := HasTable.overlay htop ⟨w, hw, hkind⟩
    exact htable.not_hasLeaf
  have hmem : keys ∈ decisions l.tree top ↔ l.tree.HasLeaf keys := by
    rw [mem_decisions_iff htop]
    constructor
    · rintro ⟨-, u, hu, hleaf | hleaf⟩
      · cases hu.symm.trans hw
        cases hleaf.symm.trans hkind
      · exact hleaf
    · exact fun hleaf => ⟨leads_of_at? hleaf.choose_spec.1, w, hw, .inr hleaf⟩
  constructor
  · intro hdescribed hleaf
    have hget := hdescribed.other hmerged
    rw [get?_merge layer htop hplain hkeys, if_pos (hmem.mpr hleaf)] at hget
    cases hget
  · intro hleaf
    refine ⟨fun v hv hkind => absurd ⟨v, hv, hkind⟩ hmerged, fun _ => ?_⟩
    rw [get?_merge layer htop hplain hkeys, if_neg (hmem.not.mpr hleaf), h.other hleaf]

/-- What was recorded stays, also for a value that is gone. -/
theorem described_iff_of_none (hnone : top.at? keys = none) :
    (l.merge layer "" top).Described (trees ++ [(layer, top)]) keys ↔
      (l.tree.HasLeaf keys → top.Leads keys) := by
  have hget : (l.merge layer "" top).sources.get? (pathText "" keys) =
      l.sources.get? (pathText "" keys) := by
    rw [get?_merge layer htop hplain hkeys, if_neg]
    intro hmem
    obtain ⟨-, w, hw, -⟩ := (mem_decisions_iff htop).mp hmem
    cases hnone.symm.trans hw
  have hat : ∀ v, v.isTable = false → ((l.merge layer "" top).tree.at? keys = some v ↔
      top.Leads keys ∧ l.tree.at? keys = some v) := fun v hv => by
    rw [merge, at?_overlay_eq_leaf_iff htop hv, hnone]
    simp
  constructor
  · rintro hdescribed ⟨v, hv, hleaf⟩
    by_contra hlost
    have hgone : ¬ (l.merge layer "" top).tree.HasLeaf keys :=
      fun ⟨w, hw, hkind⟩ => hlost ((hat w hkind).mp hw).1
    obtain ⟨_, -, hkept⟩ := h.leaf v hv hleaf
    rw [← hget, hdescribed.other hgone] at hkept
    cases hkept
  · intro hleads
    refine ⟨fun v hv hleaf => ?_, fun hgone => ?_⟩
    · obtain ⟨-, hv⟩ := (hat v hleaf).mp hv
      obtain ⟨layer', ⟨before, tree, after, rfl, htree, hlast⟩, hkept⟩ := h.leaf v hv hleaf
      refine ⟨layer', ⟨before, tree, after ++ [(layer, top)], by simp, htree, ?_⟩, by rwa [hget]⟩
      intro t ht
      rcases List.mem_append.mp ht with ht | ht
      · exact hlast t ht
      · rw [List.mem_singleton.mp ht]
        rintro ⟨w, hw, -⟩
        cases hnone.symm.trans hw
    · rw [hget, h.other]
      rintro ⟨v, hv, hleaf⟩
      exact hgone ⟨v, (hat v hleaf).mpr ⟨hleads ⟨v, hv, hleaf⟩, hv⟩, hleaf⟩

/-- Laying a tree over another keeps the sources true of a path if and only if neither disturbs the
other there. -/
theorem described_merge_iff :
    (l.merge layer "" top).Described (trees ++ [(layer, top)]) keys ↔
      Undisturbed l.tree top keys := by
  cases hat : top.at? keys with
  | none =>
    rw [described_iff_of_none htop hplain hkeys h hat]
    constructor
    · intro hleads
      refine ⟨fun hleaf => ⟨hleads hleaf, ?_⟩, ?_⟩
      · rintro ⟨w, hw, -⟩
        cases hat.symm.trans hw
      · rintro ⟨w, hw, -⟩
        cases hat.symm.trans hw
    · exact fun hmeets hleaf => (hmeets.kept hleaf).1
  | some w =>
    cases hkind : w.isTable with
    | true =>
      have htable : top.HasTable keys := ⟨w, hat, hkind⟩
      rw [described_iff_of_table htop hplain hkeys h htable]
      constructor
      · intro hnone
        exact ⟨fun hleaf => absurd hleaf hnone, fun hleaf => absurd hleaf htable.not_hasLeaf⟩
      · exact fun hmeets hleaf => (hmeets.kept hleaf).2 htable
    | false =>
      have hleaf : top.HasLeaf keys := ⟨w, hat, hkind⟩
      by_cases hleads : l.tree.Leads keys
      · have hmeets : Undisturbed l.tree top keys :=
          ⟨fun _ => ⟨leads_of_at? hat, fun htable => htable.not_hasLeaf hleaf⟩, fun _ => hleads⟩
        exact iff_of_true (described_of_leaf htop hplain hkeys hat hkind hleads) hmeets
      · exact iff_of_false (not_described_of_leaf htop hplain hkeys h hat hkind hleads)
          fun hmeets => hleads (hmeets.reached hleaf)

end

/-- All trees laid over the first one. -/
def layAll (base : Layer × Value) (tops : List (Layer × Value)) : Layered :=
  tops.foldl (fun l t => l.merge t.1 "" t.2) (ofTree base.1 "" base.2)

variable {base t : Layer × Value} {tops : List (Layer × Value)}

theorem layAll_concat :
    layAll base (tops ++ [t]) = (layAll base tops).merge t.1 "" t.2 := by
  simp [layAll]

theorem described_ofTree (hbase : base.2.Ordered) (hplain : Settings.PlainKeys base.2)
    (hkeys : ∀ key ∈ keys, PlainKey key) : (ofTree base.1 "" base.2).Described [base] keys := by
  have hmem : pathText "" keys ∈ base.2.leaves.map (pathText "") ↔ base.2.HasLeaf keys := by
    rw [← mem_leaves_iff hbase, List.mem_map]
    constructor
    · rintro ⟨keys', hmem, htext⟩
      obtain ⟨w, hw, -⟩ := (mem_leaves_iff hbase).mp hmem
      rwa [← (pathText_eq_iff (hplain keys' w hw) hkeys).mp htext]
    · exact fun hmem => ⟨keys, hmem, rfl⟩
  have hget : (ofTree base.1 "" base.2).sources.get? (pathText "" keys) =
      if pathText "" keys ∈ base.2.leaves.map (pathText "") then some base.1 else none := by
    rw [ofTree, recordLeaves_eq, Sources.get?_record, SortedMap.get?_empty]
  refine ⟨fun v hv hleaf => ⟨base.1, ⟨[], base.2, [], rfl, hv, nofun⟩, ?_⟩, fun hnone => ?_⟩
  · rw [hget, if_pos (hmem.mpr ⟨v, hv, hleaf⟩)]
  · rw [hget, if_neg (hmem.not.mpr hnone)]

theorem described_layAll_iff (hbase : base.2.Ordered ∧ Settings.PlainKeys base.2)
    (htops : ∀ t ∈ tops, t.2.Ordered ∧ Settings.PlainKeys t.2)
    (hkeys : ∀ key ∈ keys, PlainKey key) :
    (∀ before, before <+: tops → (layAll base before).Described (base :: before) keys) ↔
      ∀ before t, before ++ [t] <+: tops → Undisturbed (layAll base before).tree t.2 keys := by
  induction tops using List.reverseRecOn with
  | nil =>
    refine iff_of_true (fun before hbefore => ?_) (fun before t h => ?_)
    · rw [List.prefix_nil.mp hbefore]
      exact described_ofTree hbase.1 hbase.2 hkeys
    · simp at h
  | append_singleton tops t ih =>
    obtain ⟨htops, ht⟩ := List.forall_mem_append.mp htops
    obtain ⟨htop, hplain⟩ := ht t (List.mem_singleton_self t)
    have hstages : (∀ before, before <+: tops ++ [t] →
          (layAll base before).Described (base :: before) keys) ↔
        (∀ before, before <+: tops → (layAll base before).Described (base :: before) keys) ∧
          (layAll base (tops ++ [t])).Described (base :: tops ++ [t]) keys := by
      simp only [List.prefix_concat_iff, or_imp, forall_and, forall_eq, List.cons_append, and_comm]
    have hmerges : (∀ before t', before ++ [t'] <+: tops ++ [t] →
          Undisturbed (layAll base before).tree t'.2 keys) ↔
        (∀ before t', before ++ [t'] <+: tops → Undisturbed (layAll base before).tree t'.2 keys) ∧
          Undisturbed (layAll base tops).tree t.2 keys := by
      constructor
      · intro h
        exact ⟨fun before t' hbefore => h before t' (hbefore.trans (List.prefix_append tops [t])),
          h tops t (List.prefix_refl _)⟩
      · rintro ⟨hbefore, hlast⟩ before t' h
        rcases List.prefix_concat_iff.mp h with h | h
        · obtain ⟨rfl, ⟨⟩⟩ := List.append_inj' h rfl
          exact hlast
        · exact hbefore before t' h
    rw [hstages, hmerges, ← ih htops, layAll_concat]
    exact and_congr_right fun hall =>
      described_merge_iff htop hplain hkeys (hall tops (List.prefix_refl tops))

/-- Every recorded path is one of plain keys. -/
theorem exists_keys_of_recorded (hbase : base.2.Ordered ∧ Settings.PlainKeys base.2)
    (htops : ∀ t ∈ tops, t.2.Ordered ∧ Settings.PlainKeys t.2) {path : String}
    (h : (layAll base tops).sources.get? path = some layer) :
    ∃ keys, (∀ key ∈ keys, PlainKey key) ∧ pathText "" keys = path := by
  induction tops using List.reverseRecOn with
  | nil =>
    change (ofTree base.1 "" base.2).sources.get? path = _ at h
    rw [ofTree, recordLeaves_eq, Sources.get?_record] at h
    split at h
    · next hmem =>
      obtain ⟨keys, hkeys, rfl⟩ := List.mem_map.mp hmem
      obtain ⟨w, hw, -⟩ := (mem_leaves_iff hbase.1).mp hkeys
      exact ⟨keys, hbase.2 keys w hw, rfl⟩
    · cases h
  | append_singleton tops t ih =>
    obtain ⟨htops, ht⟩ := List.forall_mem_append.mp htops
    obtain ⟨htop, hplain⟩ := ht t (List.mem_singleton_self t)
    rw [layAll_concat, merge, recordOverlay_eq, Sources.get?_record] at h
    split at h
    · next hmem =>
      obtain ⟨keys, hkeys, rfl⟩ := List.mem_map.mp hmem
      obtain ⟨-, w, hw, -⟩ := (mem_decisions_iff htop).mp hkeys
      exact ⟨keys, hplain keys w hw, rfl⟩
    · exact ih htops h

/-- What is recorded for trees laid over one another. Every path is one of plain keys, and after
each tree the sources say of it what there is, with the layer of the last tree that has it, if and
only if no tree so far and the one it was laid over disturbed each other there. -/
theorem described_while_undisturbed (hbase : base.2.Ordered ∧ Settings.PlainKeys base.2)
    (htops : ∀ t ∈ tops, t.2.Ordered ∧ Settings.PlainKeys t.2) :
    (∀ path layer, (layAll base tops).sources.get? path = some layer →
      ∃ keys, (∀ key ∈ keys, PlainKey key) ∧ pathText "" keys = path) ∧
    ∀ keys, (∀ key ∈ keys, PlainKey key) →
      ((∀ before, before <+: tops → (layAll base before).Described (base :: before) keys) ↔
        ∀ before t, before ++ [t] <+: tops → Undisturbed (layAll base before).tree t.2 keys) :=
  ⟨fun _ _ h => exists_keys_of_recorded hbase htops h,
    fun _ hkeys => described_layAll_iff hbase htops hkeys⟩

theorem plainKeys_of_not_table (h : v.isTable = false) : Settings.PlainKeys v := by
  rintro (_ | ⟨key, keys⟩) w hw
  · exact List.forall_mem_nil _
  · exact absurd (leads_of_at? hw) (not_leads_of_not_table h)

theorem plainKeys_table {members : List (String × Value)}
    (h : ∀ m ∈ members, PlainKey m.1 ∧ Settings.PlainKeys m.2) :
    Settings.PlainKeys (.table members) := by
  rintro (_ | ⟨key, keys⟩) w hw
  · exact List.forall_mem_nil _
  · obtain ⟨u, hu, hw⟩ := Option.bind_eq_some_iff.mp hw
    obtain ⟨hkey, hplain⟩ := h (key, u) (mem_of_lookup_eq_some hu)
    exact List.forall_mem_cons.mpr ⟨hkey, hplain keys w hw⟩

theorem debug_level_is_described :
    (compactLogging.Ordered ∧ Settings.PlainKeys compactLogging) ∧
    (debugLogging.Ordered ∧ Settings.PlainKeys debugLogging) ∧
    (layAll (.defaults, compactLogging) [(.file, debugLogging)]).Described
      [(.defaults, compactLogging), (.file, debugLogging)] ["logging", "level"] := by
  let base : Layer × Value := (.defaults, compactLogging)
  let tops : List (Layer × Value) := [(.file, debugLogging)]
  have hplain {fields : List (String × Value)}
      (h : ∀ m ∈ fields, PlainKey m.1 ∧ m.2.isTable = false) :
      Settings.PlainKeys (.table [("logging", .table fields)]) := by
    have hlogging : PlainKey "logging" := by decide
    refine plainKeys_table (List.forall_mem_singleton.mpr ⟨hlogging, plainKeys_table ?_⟩)
    exact fun m hm => (h m hm).imp_right plainKeys_of_not_table
  have hbase : base.2.Ordered ∧ Settings.PlainKeys base.2 :=
    ⟨ordered_compactLogging, hplain (by decide)⟩
  have htops : ∀ t ∈ tops, t.2.Ordered ∧ Settings.PlainKeys t.2 :=
    List.forall_mem_singleton.mpr ⟨ordered_debugLogging, hplain (by decide)⟩
  have hmerges : ∀ before t, before ++ [t] <+: tops →
      Undisturbed (layAll base before).tree t.2 ["logging", "level"] := by
    intro before t h
    rcases List.prefix_concat_iff.mp (show before ++ [t] <+: [] ++ [_] from h) with h | h
    · obtain ⟨rfl, ⟨⟩⟩ := List.append_inj' h rfl
      refine ⟨fun _ => ⟨leads_of_at? rfl, ?_⟩, fun _ => leads_of_at? rfl⟩
      rintro ⟨w, ⟨⟩, ⟨⟩⟩
    · simp at h
  exact ⟨hbase, htops _ (List.mem_singleton_self _),
    ((described_while_undisturbed hbase htops).2 _ (by decide)).mpr hmerges tops
      (List.prefix_refl tops)⟩

/-- A table that takes the place of a text is recorded itself, and not what it holds; and what a
table held stays recorded when a text takes its place. -/
theorem shapes_disturb_sources :
    let opened := layAll (.defaults, .table [("logging", .string "plain")]) [(.file, debugLogging)]
    let closed := layAll (.defaults, debugLogging) [(.file, .table [("logging", .string "plain")])]
    (opened.tree.HasLeaf ["logging", "level"] ∧ opened.sources.get? "logging.level" = none ∧
      ¬ opened.tree.HasLeaf ["logging"] ∧ opened.sources.get? "logging" = some .file) ∧
    ¬ closed.tree.HasLeaf ["logging", "level"] ∧
      closed.sources.get? "logging.level" = some .defaults := by
  refine ⟨⟨⟨.string "debug", rfl, rfl⟩, by decide, ?_, by decide⟩, ?_,
    by decide⟩
  · rintro ⟨w, ⟨⟩, ⟨⟩⟩
  · rintro ⟨w, ⟨⟩, ⟨⟩⟩

end Layered
end Quorum
