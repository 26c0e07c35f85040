import Quorum.Proofs.Document
import Quorum.Settings.Layer

/-!
# Trees laid over trees

Under a key both trees have, the upper value is laid over the lower one; any other member of either
is kept (`Toml.Value.lookup_overlayMembers`). The sources record the layer for the paths at which
the upper tree decides a value, each under the text of its path (`Toml.Value.recordOverlay_eq`): for
every value that is no table, and for a table that takes the place of something else
(`Toml.Value.mem_decisions_iff`).
-/
namespace Quorum
namespace Toml.Value

theorem lookup_eq_none_of_pairwise {key : String} {v : α} {members : List (String × α)}
    (h : ((key, v) :: members).Pairwise (·.1 < ·.1)) : members.lookup key = none := by
  rw [List.lookup_eq_none_iff]
  intro m hm
  simpa using String.ne_of_lt ((List.pairwise_cons.mp h).1 m hm)

theorem overlay_of_not_table {base top : Value} (h : base.isTable = false) :
    overlay base top = top := by
  cases top with
  | table top =>
    cases base with
    | table => cases h
    | _ => rfl
  | _ => rfl

theorem lookup_overlayMembers {members top : List (String × Value)} (key : String)
    (h : top.Pairwise (·.1 < ·.1)) :
    (overlayMembers members top).lookup key =
      match top.lookup key with
      | none => members.lookup key
      | some v => some (((members.lookup key).map (overlay · v)).getD v) := by
  induction top generalizing members with
  | nil => rfl
  | cons m top ih =>
    obtain ⟨k, v⟩ := m
    rw [overlayMembers, ih (List.pairwise_cons.mp h).2, lookup_putEntry, lookup_cons_if]
    by_cases hkey : key = k
    · -- no later member has the key again
      subst hkey
      rw [lookup_eq_none_of_pairwise h]
      cases members.lookup key <;> simp
    · simp [hkey]

mutual
theorem Ordered.overlay {base : Value} (hbase : base.Ordered) :
    {top : Value} → top.Ordered → (Value.overlay base top).Ordered
  | .table top, htop => by
    cases base with
    | table members =>
      obtain ⟨hsorted, hmembers⟩ := ordered_table_iff.mp hbase
      exact Ordered.overlayMembers hsorted hmembers (ordered_table_iff.mp htop).2
    | _ => exact htop
  | .bool _, htop | .integer _, htop | .float _, htop | .string _, htop | .moment _, htop
  | .array _, htop => htop
theorem Ordered.overlayMembers {members : List (String × Value)}
    (hsorted : members.Pairwise (·.1 < ·.1)) (hmembers : ∀ m ∈ members, m.2.Ordered) :
    {top : List (String × Value)} → (∀ m ∈ top, m.2.Ordered) →
      (table (Value.overlayMembers members top)).Ordered
  | [], _ => ordered_table_iff.mpr ⟨hsorted, hmembers⟩
  | (key, v) :: top, htop => by
    obtain ⟨hv, htop⟩ := List.forall_mem_cons.mp htop
    rw [Value.overlayMembers]
    refine Ordered.overlayMembers (putEntry_sorted _ _ hsorted) (fun m hm => ?_) htop
    rcases mem_putEntry hm with rfl | hm
    · cases hlookup : members.lookup key with
      | none => exact hv
      | some old => exact Ordered.overlay (hmembers _ (mem_of_lookup_eq_some hlookup)) hv
    · exact hmembers m hm
end

mutual
/-- The paths of the values of a tree that are no tables. -/
def leaves : Value → List (List String)
  | table members => memberLeaves members
  | _ => [[]]
def memberLeaves : List (String × Value) → List (List String)
  | [] => []
  | (key, v) :: members => (leaves v).map (key :: ·) ++ memberLeaves members
end

mutual
/-- The paths at which a tree decides a value when it is laid over `base`. -/
def decisions (base : Value) : Value → List (List String)
  | table top =>
    match base with
    | table members => memberDecisions members top
    | _ => [[]]
  | _ => [[]]
def memberDecisions (members : List (String × Value)) :
    List (String × Value) → List (List String)
  | [] => []
  | (key, v) :: top =>
    let paths := match members.lookup key with
      | some old => decisions old v
      | none => leaves v
    paths.map (key :: ·) ++ memberDecisions members top
end

end Toml.Value

/-- The text of a path behind another one. -/
def pathText (path : String) (keys : List String) : String := keys.foldl joinPath path

/-- A key that can be told from its neighbours in the text of a path. -/
def PlainKey (key : String) : Prop := key ≠ "" ∧ '.' ∉ key.toList

theorem toList_pathText {path : String} {keys : List String} (h : path ≠ "") :
    (pathText path keys).toList = ['.'].intercalate (path.toList :: keys.map String.toList) := by
  induction keys generalizing path with
  | nil => rw [List.map_nil, List.intercalate_singleton]; rfl
  | cons key keys ih =>
    have hjoin : joinPath path key = path ++ "." ++ key := if_neg h
    change (pathText (joinPath path key) keys).toList = _
    rw [hjoin, ih (by simp [h])]
    cases keys <;> simp [List.intercalate_cons_cons]

/-- A path of plain keys is read back from its text. -/
theorem splitOn_pathText {keys : List String} (hne : keys ≠ []) (h : ∀ key ∈ keys, PlainKey key) :
    (pathText "" keys).toList.splitOn '.' = keys.map String.toList := by
  obtain ⟨key, keys, rfl⟩ := List.exists_cons_of_ne_nil hne
  have hkey := (h key List.mem_cons_self).1
  change (pathText key keys).toList.splitOn '.' = _
  rw [toList_pathText hkey]
  exact List.splitOn_intercalate '.' (by simpa using fun k hk => (h k hk).2) (by simp)

theorem eq_of_pathText_eq {keys keys' : List String} (hne : keys ≠ []) (hne' : keys' ≠ [])
    (h : ∀ key ∈ keys, PlainKey key) (h' : ∀ key ∈ keys', PlainKey key)
    (htext : pathText "" keys = pathText "" keys') : keys = keys' := by
  refine (List.map_inj_right fun _ _ => String.toList_inj.mp).mp ?_
  rw [← splitOn_pathText hne h, htext, splitOn_pathText hne' h']

/-- The sources with a layer recorded for each of some paths. -/
def Sources.record (layer : Layer) (paths : List String) (sources : Sources) : Sources :=
  paths.foldl (fun s path => s.insert path layer) sources

theorem Sources.get?_record {layer : Layer} {paths : List String} {sources : Sources}
    (path : String) :
    (record layer paths sources).get? path =
      if path ∈ paths then some layer else sources.get? path := by
  induction paths generalizing sources with
  | nil => rfl
  | cons p paths ih =>
    change (record layer paths (sources.insert p layer)).get? path = _
    rw [ih, SortedMap.get?_insert]
    by_cases hpath : path = p
    · simp [hpath]
    · simp [hpath]

theorem Sources.record_append {layer : Layer} {paths others : List String} {sources : Sources} :
    record layer (paths ++ others) sources = record layer others (record layer paths sources) :=
  List.foldl_append

namespace Toml.Value
variable {layer : Layer} {path : String} {sources : Sources}

theorem map_pathText_cons (key : String) (paths : List (List String)) :
    (paths.map (key :: ·)).map (pathText path) = paths.map (pathText (joinPath path key)) := by
  simp [pathText]

mutual
theorem recordLeaves_eq : (path : String) → (sources : Sources) → (v : Value) →
    recordLeaves layer path sources v = sources.record layer (v.leaves.map (pathText path))
  | path, sources, table members => recordMembers_eq path sources members
  | _, _, bool _ | _, _, integer _ | _, _, float _ | _, _, string _ | _, _, moment _
  | _, _, array _ => rfl
theorem recordMembers_eq : (path : String) → (sources : Sources) →
    (members : List (String × Value)) → recordMembers layer path sources members =
      sources.record layer ((memberLeaves members).map (pathText path))
  | _, _, [] => rfl
  | path, sources, (key, v) :: members => by
    rw [recordMembers, memberLeaves, List.map_append, map_pathText_cons, Sources.record_append,
      recordLeaves_eq, recordMembers_eq]
end

mutual
theorem recordOverlay_eq : (path : String) → (base : Value) → (sources : Sources) →
    (top : Value) → recordOverlay layer path base sources top =
      sources.record layer ((decisions base top).map (pathText path))
  | path, base, sources, table top => by
    cases base with
    | table members => exact recordOverlayMembers_eq path members sources top
    | _ => rfl
  | _, _, _, bool _ | _, _, _, integer _ | _, _, _, float _ | _, _, _, string _
  | _, _, _, moment _ | _, _, _, array _ => rfl
theorem recordOverlayMembers_eq : (path : String) → (members : List (String × Value)) →
    (sources : Sources) → (top : List (String × Value)) →
      recordOverlayMembers layer path members sources top =
        sources.record layer ((memberDecisions members top).map (pathText path))
  | _, _, _, [] => rfl
  | path, members, sources, (key, v) :: top => by
    rw [recordOverlayMembers, memberDecisions, List.map_append, map_pathText_cons,
      Sources.record_append, recordOverlayMembers_eq]
    cases members.lookup key with
    | none => exact congrArg _ (recordLeaves_eq _ _ v)
    | some old => exact congrArg _ (recordOverlay_eq _ old _ v)
end

/-- A value that is no table stands at the path. -/
def HasLeaf (v : Value) (keys : List String) : Prop := ∃ w, v.at? keys = some w ∧ w.isTable = false

variable {base top v : Value} {members tops : List (String × Value)} {key : String}
  {keys : List String}

theorem mem_iff_lookup_eq_some (h : members.Pairwise (·.1 < ·.1)) :
    (key, v) ∈ members ↔ members.lookup key = some v :=
  SortedMap.mem_entries_iff (m := ⟨members, h⟩)

theorem exists_of_isTable (h : v.isTable = true) : ∃ members, v = table members := by
  cases v with
  | table members => exact ⟨members, rfl⟩
  | _ => cases h

theorem hasLeaf_nil_iff : v.HasLeaf [] ↔ v.isTable = false := by
  simp [HasLeaf, at?]

theorem hasLeaf_cons_iff :
    v.HasLeaf (key :: keys) ↔ ∃ w, v.member? key = some w ∧ w.HasLeaf keys := by
  simp only [HasLeaf, at?, Option.bind_eq_some_iff]
  constructor
  · rintro ⟨leaf, ⟨w, hw, hleaf⟩, hnone⟩
    exact ⟨w, hw, leaf, hleaf, hnone⟩
  · rintro ⟨w, hw, leaf, hleaf, hnone⟩
    exact ⟨leaf, ⟨w, hw, hleaf⟩, hnone⟩

theorem mem_memberLeaves_iff (h : members.Pairwise (·.1 < ·.1)) :
    key :: keys ∈ memberLeaves members ↔
      ∃ w, members.lookup key = some w ∧ keys ∈ w.leaves := by
  simp only [← mem_iff_lookup_eq_some h]
  clear h
  induction members with
  | nil => simp [memberLeaves]
  | cons m members ih =>
    simp only [memberLeaves, List.mem_append, List.mem_map, List.cons.injEq, ih, List.mem_cons]
    constructor
    · rintro (⟨ks, hks, rfl, rfl⟩ | ⟨w, hw, hkeys⟩)
      · exact ⟨m.2, .inl rfl, hks⟩
      · exact ⟨w, .inr hw, hkeys⟩
    · rintro ⟨w, rfl | hw, hkeys⟩
      · exact .inl ⟨keys, hkeys, rfl, rfl⟩
      · exact .inr ⟨w, hw, hkeys⟩

theorem nil_not_mem_memberLeaves : [] ∉ memberLeaves members := by
  induction members with
  | nil => simp [memberLeaves]
  | cons m members ih => simp [memberLeaves, ih]

theorem mem_leaves_iff (h : v.Ordered) : keys ∈ v.leaves ↔ v.HasLeaf keys := by
  induction keys generalizing v with
  | nil =>
    rw [hasLeaf_nil_iff]
    cases v with
    | table members => simp [leaves, nil_not_mem_memberLeaves, isTable]
    | _ => simp [leaves, isTable]
  | cons key keys ih =>
    rw [hasLeaf_cons_iff]
    cases v with
    | table members =>
      obtain ⟨hsorted, hmembers⟩ := ordered_table_iff.mp h
      rw [leaves, mem_memberLeaves_iff hsorted]
      refine exists_congr fun w => and_congr_right fun hw => ?_
      exact ih (hmembers _ (mem_of_lookup_eq_some hw))
    | _ => simp [leaves, member?]

theorem mem_memberDecisions_iff (h : tops.Pairwise (·.1 < ·.1)) :
    key :: keys ∈ memberDecisions members tops ↔
      ∃ w, tops.lookup key = some w ∧
        keys ∈ ((members.lookup key).map (decisions · w)).getD w.leaves := by
  simp only [← mem_iff_lookup_eq_some h]
  clear h
  induction tops with
  | nil => simp [memberDecisions]
  | cons m tops ih =>
    have hpaths : (match members.lookup m.1 with
        | some old => decisions old m.2
        | none => leaves m.2) =
          ((members.lookup m.1).map (decisions · m.2)).getD m.2.leaves := by
      cases members.lookup m.1 <;> rfl
    simp only [memberDecisions, hpaths, List.mem_append, List.mem_map, List.cons.injEq, ih,
      List.mem_cons]
    constructor
    · rintro (⟨ks, hks, rfl, rfl⟩ | ⟨w, hw, hkeys⟩)
      · exact ⟨m.2, .inl rfl, hks⟩
      · exact ⟨w, .inr hw, hkeys⟩
    · rintro ⟨w, rfl | hw, hkeys⟩
      · exact .inl ⟨keys, hkeys, rfl, rfl⟩
      · exact .inr ⟨w, hw, hkeys⟩

theorem nil_not_mem_memberDecisions : [] ∉ memberDecisions members tops := by
  induction tops with
  | nil => simp [memberDecisions]
  | cons m tops ih => simp [memberDecisions, ih]

/-- The way to a path leads through tables, as far as there is one. -/
def Leads (v : Value) (keys : List String) : Prop :=
  ∀ before, before <+: keys → before ≠ keys → ¬ v.HasLeaf before

theorem leads_nil : v.Leads [] :=
  fun _ hbefore hne => absurd (List.prefix_nil.mp hbefore) hne

theorem leads_cons_iff :
    (table members).Leads (key :: keys) ↔
      ∀ old, members.lookup key = some old → old.Leads keys := by
  constructor
  · intro h old hold before hbefore hne hleaf
    refine h (key :: before) (List.cons_prefix_cons.mpr ⟨rfl, hbefore⟩) (by simpa using hne) ?_
    exact hasLeaf_cons_iff.mpr ⟨old, hold, hleaf⟩
  · rintro h (_ | ⟨k, before⟩) hbefore hne hleaf
    · cases hasLeaf_nil_iff.mp hleaf
    · obtain ⟨old, hold, hleaf⟩ := hasLeaf_cons_iff.mp hleaf
      obtain ⟨rfl, hrest⟩ := List.cons_prefix_cons.mp hbefore
      exact h old hold before hrest (by simpa using hne) hleaf

theorem not_leads_of_not_table (h : v.isTable = false) : ¬ v.Leads (key :: keys) :=
  fun hleads => hleads [] List.nil_prefix (by simp) (hasLeaf_nil_iff.mpr h)

/-- What is decided are the values that are no tables, and the tables in the place of one, where
the way to them leads through tables below. -/
theorem mem_decisions_iff (h : top.Ordered) :
    keys ∈ decisions base top ↔
      base.Leads keys ∧ ∃ w, top.at? keys = some w ∧ (w.isTable = false ∨ base.HasLeaf keys) := by
  induction keys generalizing base top with
  | nil =>
    simp only [leads_nil, true_and, at?, Option.some.injEq, exists_eq_left', hasLeaf_nil_iff]
    cases top with
    | table tops =>
      cases base with
      | table members => simp [decisions, nil_not_mem_memberDecisions, isTable]
      | _ => simp [decisions, isTable]
    | _ => simp [decisions, isTable]
  | cons key keys ih =>
    cases top with
    | table tops =>
      cases base with
      | table members =>
        obtain ⟨hsorted, hordered⟩ := ordered_table_iff.mp h
        rw [decisions, mem_memberDecisions_iff hsorted, leads_cons_iff, hasLeaf_cons_iff]
        simp only [at?, member?]
        cases htop : tops.lookup key with
        | none => simp
        | some w =>
          have hw := hordered _ (mem_of_lookup_eq_some htop)
          cases hbase : members.lookup key with
          | none => simp [mem_leaves_iff hw, HasLeaf]
          | some old => simp [ih hw]
      | _ => exact iff_of_false (by simp [decisions]) fun hdecided =>
          not_leads_of_not_table rfl hdecided.1
    | _ => simp [decisions, at?, member?]

end Toml.Value
end Quorum
