import Quorum.Proofs.Sections

/-!
# Which layer a setting comes from

A bound field is what the file has under its section and key, else what its variable says, else its
default, and the sources say which (`Settings.load_precedence`). The sources are kept by the text of
a path, though. Where the file decides a value at some other path that reads the same, the field
counts as set by the file and its variable is passed over
(`Settings.quoted_path_shuts_variable_out`); no file of plain keys does that
(`Settings.spells_iff_of_plainKeys`). And a section given as a list takes nothing from the variables
that the sources name for it (`Settings.list_section_stands`).
-/
namespace Quorum
open Toml Toml.Value Environment

namespace Settings
variable {file : Option FileContent} {env : Environment} {b : Binding} {top v : Value}

/-- The tree of the file; without a file, one with nothing in it. -/
def fileTree : Option FileContent → Except LoadError Value
  | none | some (.error .missing) => .ok (.table [])
  | some content => treeOf true content

/-- The settings before any file: the defaults, all recorded as such. -/
def base : Layered := .ofTree .defaults "" (toTree {})

theorem treeOfText_eq_ok_iff {document : Document} {revealing : Bool} {text : String} :
    treeOfText document revealing text = .ok v ↔ parse? revealing text = some v := by
  unfold treeOfText
  cases parse? revealing text with
  | none => exact iff_of_false nofun nofun
  | some tree =>
    rw [Option.some.injEq]
    exact ⟨Except.ok.inj, congrArg Except.ok⟩

/-- The text of the defaults and the defaults of the fields are one tree. -/
theorem parse?_defaultsText : parse? true defaultsText = some (toTree {}) := by
  obtain ⟨cs, htext⟩ : ∃ cs, defaultsText.toList = cs := ⟨_, rfl⟩
  -- The characters are spelled out line by line, as it takes long to find them in the octets.
  have hchars := htext
  simp only [defaultsText, String.toList_intercalate, List.map_cons, List.map_nil,
    String.reduceToList] at hchars
  subst hchars
  rw [parse?_of_toList htext (by decide)]
  decide +kernel

theorem layers_eq (file : Option FileContent) : layers file =
    match file with
    | none | some (.error .missing) => .ok (base, false)
    | some content => do return (base.merge .file "" (← treeOf true content), true) := by
  unfold layers
  rw [treeOfText_eq_ok_iff.mpr parse?_defaultsText]
  rfl

theorem layers_eq_ok {l : Layered} {fromFile : Bool} (h : layers file = .ok (l, fromFile)) :
    ∃ top, fileTree file = .ok top ∧ l = base.merge .file "" top := by
  rw [layers_eq] at h
  split at h
  · cases h
    exact ⟨_, rfl, rfl⟩
  · cases h
    exact ⟨_, rfl, rfl⟩
  · next content hmissing =>
    obtain ⟨top, htop, ⟨⟩⟩ := bind_eq_ok_iff.mp h
    refine ⟨top, ?_, rfl⟩
    rw [fileTree]
    · exact htop
    · exact fun hcontent => hmissing hcontent

theorem parse?_of_fileTree (h : fileTree file = .ok top) :
    top = .table [] ∨ ∃ text, parse? true text = some top := by
  unfold fileTree at h
  split at h
  · cases h
    exact .inl rfl
  · cases h
    exact .inl rfl
  · obtain ⟨text, -, htree⟩ := bind_eq_ok_iff.mp h
    exact .inr ⟨text, treeOfText_eq_ok_iff.mp htree⟩

theorem ordered_of_fileTree (h : fileTree file = .ok top) : top.Ordered := by
  rcases parse?_of_fileTree h with rfl | ⟨text, htext⟩
  · exact ordered_table_iff.mpr (by simp)
  · exact ordered_of_parse? htext

theorem startsWithDigit_of_fileTree {keys : List String} {text : String}
    (h : fileTree file = .ok top) (hat : top.at? keys = some (moment text)) :
    Moment.StartsWithDigit text := by
  rcases parse?_of_fileTree h with rfl | ⟨document, hdocument⟩
  · cases keys <;> cases hat
  · exact startsWithDigit_of_parse? hdocument hat

theorem load_eq_ok {l : Loaded} (h : load file env = .ok l) :
    ∃ top, fileTree file = .ok top ∧
      l.sources = (env.fillIn (base.merge .file "" top)).sources ∧
      ofTree? (env.fillIn (base.merge .file "" top)).tree = some l.settings ∧
      l.settings.problem? = none := by
  obtain ⟨⟨layered, fromFile⟩, hlayers, h⟩ := bind_eq_ok_iff.mp h
  obtain ⟨top, htop, rfl⟩ := layers_eq_ok hlayers
  refine ⟨top, htop, ?_⟩
  cases hread : ofTree? (env.fillIn (base.merge .file "" top)).tree with
  | none =>
    simp only [hread] at h
    cases h
  | some s =>
    simp only [hread] at h
    obtain ⟨s', hvalid, ⟨⟩⟩ := bind_eq_ok_iff.mp h
    unfold validate at hvalid
    split at hvalid
    · cases hvalid
    · next hproblem =>
      cases hvalid
      exact ⟨rfl, rfl, hproblem⟩

theorem ordered_defaults : (toTree {}).Ordered := by
  simp only [toTree, Ordered, OrderedMembers, OrderedItems, List.map_nil, and_true]
  decide

/-- A default stands in a section of its own kind and is no table. -/
theorem default_section (hb : b ∈ bindings) :
    ∃ fields v, (toTree {}).member? b.sectionKey = some (table fields) ∧
      fields.lookup b.fieldKey = some v ∧ v.isTable = false := by
  rcases eq_of_mem_bindings hb with rfl | rfl | rfl | rfl
  · exact ⟨_, _, rfl, rfl, rfl⟩
  · exact ⟨_, _, rfl, rfl, rfl⟩
  · exact ⟨_, _, rfl, rfl, rfl⟩
  · exact ⟨_, _, rfl, rfl, rfl⟩

theorem member?_overlay_defaults {tops : List (String × Value)} (htop : (table tops).Ordered)
    (key : String) :
    ((toTree {}).overlay (table tops)).member? key =
      match tops.lookup key with
      | none => (toTree {}).member? key
      | some v => some ((((toTree {}).member? key).map (overlay · v)).getD v) :=
  lookup_overlayMembers key (ordered_table_iff.mp htop).1

/-- A section that is no table in the file takes the place of the default one. -/
theorem member?_merge_of_not_table {tops : List (String × Value)} (htop : (table tops).Ordered)
    (hb : b ∈ bindings) (hv : tops.lookup b.sectionKey = some v) (hnone : v.isTable = false) :
    (base.merge .file "" (table tops)).tree.member? b.sectionKey = some v := by
  obtain ⟨fields, -, hsection, -, -⟩ := default_section hb
  change ((toTree {}).overlay (table tops)).member? b.sectionKey = _
  rw [member?_overlay_defaults htop, hv, hsection]
  cases v with
  | table => cases hnone
  | _ => rfl

theorem hasLeaf_defaults (hb : b ∈ bindings) : (toTree {}).HasLeaf b.keys := by
  obtain ⟨fields, v, hsection, hv, hleaf⟩ := default_section hb
  exact ⟨v, by rw [Binding.keys, at?_pair, hsection]; exact hv, hleaf⟩

/-- Where the section is no other thing than a table, a field has the value of the file, or its
default. -/
theorem at?_merge {tops : List (String × Value)} {default : Value} (htop : (table tops).Ordered)
    (hb : b ∈ bindings) (hdefault : (toTree {}).at? b.keys = some default)
    (hsection : ∀ v, tops.lookup b.sectionKey = some v → v.isTable = true) :
    ∃ fields,
      (base.merge .file "" (table tops)).tree.member? b.sectionKey = some (table fields) ∧
      fields.lookup b.fieldKey = some (((table tops).at? b.keys).getD default) := by
  obtain ⟨defaults, v, hdefaults, hv, hleaf⟩ := default_section hb
  obtain rfl : v = default := by
    rw [Binding.keys, at?_pair, hdefaults] at hdefault
    exact Option.some.inj (hv.symm.trans hdefault)
  have hmember := member?_overlay_defaults htop b.sectionKey
  rw [hdefaults] at hmember
  have hfile : (table tops).at? b.keys =
      (tops.lookup b.sectionKey).bind (member? b.fieldKey) := by
    rw [Binding.keys, at?_pair, member?]
  rw [hfile]
  cases hlookup : tops.lookup b.sectionKey with
  | none =>
    rw [hlookup] at hmember
    exact ⟨defaults, hmember, hv⟩
  | some w =>
    rw [hlookup] at hmember
    obtain ⟨given, rfl⟩ := exists_of_isTable (hsection w hlookup)
    have hgiven := (ordered_table_iff.mp htop).2 _ (mem_of_lookup_eq_some hlookup)
    refine ⟨overlayMembers defaults given, hmember, ?_⟩
    rw [lookup_overlayMembers b.fieldKey (ordered_table_iff.mp hgiven).1, hv]
    rw [Option.bind_some, member?]
    cases given.lookup b.fieldKey with
    | none => rfl
    | some v => simp [overlay_of_not_table hleaf]

/-- The file decides a value at a path that reads as this one. -/
def Spells (top : Value) (path : String) : Prop :=
  ∃ keys ∈ decisions (toTree {}) top, pathText "" keys = path

theorem pathText_keys (hb : b ∈ bindings) : pathText "" b.keys = b.path := by
  have hpaths : ∀ b ∈ bindings, pathText "" b.keys = b.path := by decide
  exact hpaths b hb

theorem leads_defaults (hb : b ∈ bindings) : (toTree {}).Leads b.keys := by
  have hprefixes : ∀ b ∈ bindings, ∀ before ∈ (toTree {}).leaves,
      before <+: b.keys → before = b.keys := by
    decide
  intro before hbefore hne hleaf
  exact hne (hprefixes b hb before ((mem_leaves_iff ordered_defaults).mpr hleaf) hbefore)

/-- A field that the file has is spelled. -/
theorem spells_of_at? (htop : top.Ordered) (hb : b ∈ bindings) (hv : top.at? b.keys = some v) :
    Spells top b.path :=
  ⟨b.keys, (mem_decisions_iff htop).mpr ⟨leads_defaults hb, v, hv, .inr (hasLeaf_defaults hb)⟩,
    pathText_keys hb⟩

/-- The tree has plain keys only. Where a key has a dot in it, a path no longer says which field it
stands for. -/
def PlainKeys (v : Value) : Prop := ∀ keys w, v.at? keys = some w → ∀ key ∈ keys, PlainKey key

theorem plainKey_of_mem_keys (hb : b ∈ bindings) : ∀ key ∈ b.keys, PlainKey key := by
  have hplain : ∀ b ∈ bindings, ∀ key ∈ b.keys, key ≠ "" ∧ '.' ∉ key.toList := by decide
  exact hplain b hb

/-- With plain keys, a field is spelled only where it is. -/
theorem spells_iff_of_plainKeys (htop : top.Ordered) (hb : b ∈ bindings) (hplain : PlainKeys top) :
    Spells top b.path ↔ ∃ v, top.at? b.keys = some v := by
  constructor
  · rintro ⟨keys, hmem, htext⟩
    obtain ⟨-, v, hv, -⟩ := (mem_decisions_iff htop).mp hmem
    rw [← pathText_keys hb] at htext
    have hne : keys ≠ [] := by
      rintro rfl
      have hnames : ∀ b ∈ bindings, pathText "" [] ≠ pathText "" b.keys := by decide
      exact hnames b hb htext
    -- both paths are read back from the one text
    obtain rfl := eq_of_pathText_eq hne (by simp [Binding.keys]) (hplain keys v hv)
      (plainKey_of_mem_keys hb) htext
    exact ⟨v, hv⟩
  · rintro ⟨v, hv⟩
    exact spells_of_at? htop hb hv

theorem get?_merge_of_spells (hspells : Spells top b.path) :
    (base.merge .file "" top).sources.get? b.path = some .file := by
  change (recordOverlay .file "" (toTree {}) base.sources top).get? b.path = _
  rw [recordOverlay_eq, Sources.get?_record, if_pos (by simpa [Spells] using hspells)]

theorem get?_merge_of_not_spells (hb : b ∈ bindings) (hspells : ¬ Spells top b.path) :
    (base.merge .file "" top).sources.get? b.path = some .defaults := by
  have hdefaults : ∀ b ∈ bindings, base.sources.get? b.path = some .defaults := by
    decide
  change (recordOverlay .file "" (toTree {}) base.sources top).get? b.path = _
  rw [recordOverlay_eq, Sources.get?_record, if_neg (by simpa [Spells] using hspells),
    hdefaults b hb]

/-- All layers, with the environment in the fields that are open. -/
def layered (env : Environment) (top : Value) : Layered := env.fillIn (base.merge .file "" top)

theorem ordered_layered (htop : top.Ordered) : (layered env top).tree.Ordered :=
  ordered_fill (ordered_defaults.overlay htop)

theorem isOpen_merge_of_spells (hspells : Spells top b.path) :
    b.isOpen (base.merge .file "" top).sources = false := by
  rw [Binding.isOpen, get?_merge_of_spells hspells]

theorem isOpen_merge_of_not_spells (hb : b ∈ bindings) (hspells : ¬ Spells top b.path) :
    b.isOpen (base.merge .file "" top).sources = true := by
  rw [Binding.isOpen, get?_merge_of_not_spells hb hspells]

theorem get?_layered_of_spells (hb : b ∈ bindings) (hspells : Spells top b.path) :
    (layered env top).sources.get? b.path = some .file := by
  rw [layered, get?_fillIn hb, isOpen_merge_of_spells hspells, if_neg (by simp),
    get?_merge_of_spells hspells]

theorem get?_layered_of_not_spells (hb : b ∈ bindings) (hspells : ¬ Spells top b.path) :
    (layered env top).sources.get? b.path =
      some (if (env.get? b.variableName).isSome then .environment else .defaults) := by
  rw [layered, get?_fillIn hb, isOpen_merge_of_not_spells hb hspells,
    get?_merge_of_not_spells hb hspells]
  cases (env.get? b.variableName).isSome <;> rfl

variable {tops : List (String × Value)} {s : Settings}

/-- Settings are read from a table, so what the file holds is one. -/
theorem exists_tops_of_ofTree? (htop : fileTree file = .ok top)
    (hread : ofTree? (layered env top).tree = some s) : ∃ tops, top = table tops := by
  rcases parse?_of_fileTree htop with rfl | ⟨text, htext⟩
  · exact ⟨[], rfl⟩
  rcases table_or_moment_of_parse? htext with ⟨tops, rfl⟩ | ⟨moment, rfl⟩
  · exact ⟨tops, rfl⟩
  · -- a moment takes the place of all the defaults, and nothing can be put into it
    have htree : (layered env (.moment moment)).tree = .moment moment := fill_tree_of_not_table rfl
    rw [htree] at hread
    cases hread

/-- What is no table in the file is found in all layers as it is. -/
theorem exists_members_of_not_table (hb : b ∈ bindings) (htop : (table tops).Ordered)
    (hv : tops.lookup b.sectionKey = some v) (hkind : v.isTable = false) :
    ∃ members, (layered env (table tops)).tree = table members ∧
      members.Pairwise (·.1 < ·.1) ∧ members.lookup b.sectionKey = some v := by
  have hmember : (layered env (table tops)).tree.member? b.sectionKey = some v :=
    member?_fill_of_not_table (member?_merge_of_not_table htop hb hv hkind) hkind
  have hordered : (layered env (table tops)).tree.Ordered := ordered_layered htop
  cases htree : (layered env (table tops)).tree with
  | table members =>
    rw [htree] at hmember hordered
    exact ⟨members, rfl, (ordered_table_iff.mp hordered).1, hmember⟩
  | _ =>
    rw [htree] at hmember
    cases hmember

/-- A section of the file is a table or a list. -/
theorem table_or_array_of_layered (hb : b ∈ bindings) (htop : (table tops).Ordered)
    (hread : ofTree? (layered env (table tops)).tree = some s)
    (hv : tops.lookup b.sectionKey = some v) : v.isTable = true ∨ ∃ items, v = array items := by
  cases hkind : v.isTable with
  | true => exact .inl rfl
  | false =>
    obtain ⟨members, htree, hsorted, hmember⟩ := exists_members_of_not_table hb htop hv hkind
    rw [htree] at hread
    rw [← hkind]
    exact table_or_array_of_ofTree? hb hsorted hread hmember

section
variable {default w : Value} (htop : (table tops).Ordered) (hb : b ∈ bindings)
  (hsection : ∀ v, tops.lookup b.sectionKey = some v → v.isTable = true)
include htop hb hsection

theorem exists_member?_layered :
    ∃ fields, (layered env (table tops)).tree.member? b.sectionKey = some (table fields) := by
  obtain ⟨default, hdefault, -⟩ := hasLeaf_defaults hb
  obtain ⟨fields, hmember, -⟩ := at?_merge htop hb hdefault hsection
  exact exists_member?_fill hmember

theorem at?_layered_of_open (hspells : ¬ Spells (table tops) b.path) {text : String}
    (htext : env.get? b.variableName = some text) :
    (layered env (table tops)).tree.at? b.keys = some (b.valueOf text) := by
  obtain ⟨default, hdefault, -⟩ := hasLeaf_defaults hb
  obtain ⟨fields, hmember, -⟩ := at?_merge htop hb hdefault hsection
  exact at?_fillIn_of_open hb (isOpen_merge_of_not_spells hb hspells) htext hmember

theorem at?_layered_of_kept (hdefault : (toTree {}).at? b.keys = some default)
    (hkept : Spells (table tops) b.path ∨ env.get? b.variableName = none) :
    (layered env (table tops)).tree.at? b.keys =
      some (((table tops).at? b.keys).getD default) := by
  obtain ⟨fields, hmember, hfield⟩ := at?_merge htop hb hdefault hsection
  rw [layered, at?_fillIn_of_kept hb (hkept.imp_left isOpen_merge_of_spells), Binding.keys,
    at?_pair, hmember]
  exact hfield

theorem at?_toTree_of_layered (hread : ofTree? (layered env (table tops)).tree = some s)
    (hvalid : s.problem? = none) (hw : (layered env (table tops)).tree.at? b.keys = some w)
    (hmoment : ∀ text, w = moment text → Moment.StartsWithDigit text) :
    s.toTree.at? b.keys = some w := by
  obtain ⟨fields, hmember⟩ : ∃ fields,
      (layered env (table tops)).tree.member? b.sectionKey = some (table fields) :=
    exists_member?_layered htop hb hsection
  exact at?_toTree_of_valid hb (ordered_layered htop) hread hvalid hmember hw hmoment

end

/-- Settings loaded from a file with these members and an environment. -/
structure LoadedFrom (file : Option FileContent) (env : Environment)
    (tops : List (String × Value)) (l : Loaded) : Prop where
  file : fileTree file = .ok (table tops)
  sources : l.sources = (layered env (table tops)).sources
  read : ofTree? (layered env (table tops)).tree = some l.settings
  valid : l.settings.problem? = none

theorem exists_loadedFrom {l : Loaded} (h : load file env = .ok l) :
    ∃ tops, LoadedFrom file env tops l := by
  obtain ⟨top, htop, hsources, hread, hvalid⟩ := load_eq_ok h
  obtain ⟨tops, rfl⟩ := exists_tops_of_ofTree? htop hread
  exact ⟨tops, htop, hsources, hread, hvalid⟩

/-- A section that the file gives as a list stands as it is, whatever the variables say; the sources
name the environment for its fields all the same. -/
theorem list_section_stands {l : Loaded} {items : List Value} (h : load file env = .ok l)
    (htop : fileTree file = .ok top) (hb : b ∈ bindings)
    (hlist : top.member? b.sectionKey = some (.array items)) :
    (∀ env' l', load file env' = .ok l' →
      l'.settings.toTree.at? b.keys = l.settings.toTree.at? b.keys) ∧
    (¬ Spells top b.path → l.sources.get? b.path =
      some (if (env.get? b.variableName).isSome then .environment else .defaults)) := by
  obtain ⟨tops, hl⟩ := exists_loadedFrom h
  cases htop.symm.trans hl.file
  have hordered := ordered_of_fileTree htop
  refine ⟨fun env' l' h' => ?_, fun hspells => ?_⟩
  · obtain ⟨_, hl'⟩ := exists_loadedFrom h'
    cases htop.symm.trans hl'.file
    obtain ⟨members, htree, hsorted, hmember⟩ :=
      exists_members_of_not_table hb hordered hlist rfl
    obtain ⟨members', htree', hsorted', hmember'⟩ :=
      exists_members_of_not_table hb hordered hlist rfl
    have hread : ofTree? (table members) = some l.settings := htree ▸ hl.read
    have hread' : ofTree? (table members') = some l'.settings := htree' ▸ hl'.read
    exact at?_toTree_eq_of_section hb hsorted' hsorted hread' hread hmember' hmember
  · rw [hl.sources]
    exact get?_layered_of_not_spells hb hspells

theorem treeOf_toUTF8 {revealing : Bool} {text : String} (hsize : text.utf8ByteSize ≤ largestFile)
    (hparse : parse? revealing text = some top) : treeOf revealing (.ok text.toUTF8) = .ok top := by
  have hutf8 : String.fromUTF8? text.toUTF8 = some text := dif_pos text.isValidUTF8
  have hread : FileContent.text (.ok text.toUTF8) = .ok text :=
    bind_eq_ok_iff.mpr ⟨text.toUTF8, rfl, by rw [hutf8]; rfl⟩
  have htext : textOf (.ok text.toUTF8) = .ok text :=
    bind_eq_ok_iff.mpr ⟨text, by rw [hread]; rfl, if_neg (Nat.not_lt.mpr hsize)⟩
  exact bind_eq_ok_iff.mpr ⟨text, htext, treeOfText_eq_ok_iff.mpr hparse⟩

theorem load_toUTF8 {text : String} (hsize : text.utf8ByteSize ≤ largestFile)
    (hparse : parse? true text = some top) (hread : ofTree? (layered env top).tree = some s)
    (hvalid : s.problem? = none) :
    load (some (.ok text.toUTF8)) env = .ok ⟨s, (layered env top).sources, true⟩ := by
  have hlayers : layers (some (.ok text.toUTF8)) = .ok (base.merge .file "" top, true) := by
    rw [layers_eq]
    exact bind_eq_ok_iff.mpr ⟨top, treeOf_toUTF8 hsize hparse, rfl⟩
  refine bind_eq_ok_iff.mpr ⟨_, hlayers, ?_⟩
  rw [layered] at hread
  simp only [hread]
  exact bind_eq_ok_iff.mpr ⟨s, by rw [validate, hvalid], rfl⟩

/-- The field has the value, and the sources name the layer for it. -/
def Loaded.Gives (l : Loaded) (b : Binding) (v : Value) (layer : Layer) : Prop :=
  l.settings.toTree.at? b.keys = some v ∧ l.sources.get? b.path = some layer

theorem isTable_section_of_at? (htop : (table tops).at? b.keys = some v) :
    ∀ w, tops.lookup b.sectionKey = some w → w.isTable = true := by
  intro w hw
  rw [Binding.keys, at?_pair, member?, hw] at htop
  cases w with
  | table => rfl
  | _ => cases htop

/-- No variable is a moment. -/
theorem valueOf_ne_moment {text t : String} : b.valueOf text ≠ moment t := by
  unfold Binding.valueOf
  split <;> simp

/-- No default is a moment. -/
theorem default_ne_moment {t : String} (hb : b ∈ bindings) :
    (toTree {}).at? b.keys ≠ some (moment t) := by
  intro hmoment
  rcases eq_of_mem_bindings hb with rfl | rfl | rfl | rfl <;> cases hmoment

namespace LoadedFrom
variable {l : Loaded} {default : Value} (hl : LoadedFrom file env tops l) (hb : b ∈ bindings)
include hl hb

theorem gives_file (hv : (table tops).at? b.keys = some v) : l.Gives b v .file := by
  have hordered := ordered_of_fileTree hl.file
  have hsection := isTable_section_of_at? hv
  -- the sources name the file for it, so its variable is passed over
  have hspells := spells_of_at? hordered hb hv
  obtain ⟨default, hdefault, -⟩ := hasLeaf_defaults hb
  have hat : (layered env (table tops)).tree.at? b.keys =
      some (((table tops).at? b.keys).getD default) :=
    at?_layered_of_kept hordered hb hsection hdefault (.inl hspells)
  rw [hv] at hat
  refine ⟨?_, by rw [hl.sources, get?_layered_of_spells hb hspells]⟩
  refine at?_toTree_of_layered hordered hb hsection hl.read hl.valid hat fun text htext => ?_
  exact startsWithDigit_of_fileTree hl.file (htext ▸ hv)

/-- Only a list stands for a section that is no table. -/
theorem isTable_section (hlist : ∀ items, (table tops).member? b.sectionKey ≠ some (array items)) :
    ∀ w, tops.lookup b.sectionKey = some w → w.isTable = true := by
  intro w hw
  rcases table_or_array_of_layered hb (ordered_of_fileTree hl.file) hl.read hw with
    htable | ⟨items, rfl⟩
  · exact htable
  · exact absurd hw (hlist items)

theorem at?_of_kept (hlist : ∀ items, (table tops).member? b.sectionKey ≠ some (array items))
    (hnone : (table tops).at? b.keys = none) (hdefault : (toTree {}).at? b.keys = some default)
    (hkept : Spells (table tops) b.path ∨ env.get? b.variableName = none) :
    l.settings.toTree.at? b.keys = some default := by
  have hordered := ordered_of_fileTree hl.file
  have hsection := hl.isTable_section hb hlist
  have hat := at?_layered_of_kept hordered hb hsection hdefault hkept
  rw [hnone] at hat
  refine at?_toTree_of_layered hordered hb hsection hl.read hl.valid hat ?_
  rintro text rfl
  exact absurd hdefault (default_ne_moment hb)

theorem gives_environment
    (hlist : ∀ items, (table tops).member? b.sectionKey ≠ some (array items))
    (hspells : ¬ Spells (table tops) b.path) {text : String}
    (htext : env.get? b.variableName = some text) : l.Gives b (b.valueOf text) .environment := by
  have hordered := ordered_of_fileTree hl.file
  have hsection := hl.isTable_section hb hlist
  have hat := at?_layered_of_open hordered hb hsection hspells htext
  refine ⟨?_, ?_⟩
  · exact at?_toTree_of_layered hordered hb hsection hl.read hl.valid hat
      fun _ hmoment => absurd hmoment valueOf_ne_moment
  · rw [hl.sources, get?_layered_of_not_spells hb hspells, htext]
    rfl

end LoadedFrom

/-- Wherever settings come from a file, an environment and the defaults: a field that the file has
is the file's. Another field, unless its section is a list, is what its variable says and otherwise
its default; but if the file spells its path at some other place, it has its default and the sources
name the file. -/
theorem load_precedence {l : Loaded} (h : load file env = .ok l) :
    ∃ top, fileTree file = .ok top ∧ ∀ b ∈ bindings,
      (∀ v, top.at? b.keys = some v → l.Gives b v .file) ∧
      (top.at? b.keys = none → (∀ items, top.member? b.sectionKey ≠ some (.array items)) →
        ∃ default, (toTree {}).at? b.keys = some default ∧
          (Spells top b.path → l.Gives b default .file) ∧
          (¬ Spells top b.path →
            (∀ text, env.get? b.variableName = some text →
              l.Gives b (b.valueOf text) .environment) ∧
            (env.get? b.variableName = none → l.Gives b default .defaults))) := by
  obtain ⟨tops, hl⟩ := exists_loadedFrom h
  refine ⟨_, hl.file, fun b hb => ⟨fun v hv => hl.gives_file hb hv, fun hnone hlist => ?_⟩⟩
  obtain ⟨default, hdefault, -⟩ := hasLeaf_defaults hb
  refine ⟨default, hdefault, fun hspells => ?_, fun hspells => ⟨fun text htext => ?_,
    fun hunset => ?_⟩⟩
  · exact ⟨hl.at?_of_kept hb hlist hnone hdefault (.inl hspells),
      by rw [hl.sources, get?_layered_of_spells hb hspells]⟩
  · exact hl.gives_environment hb hlist hspells htext
  · refine ⟨hl.at?_of_kept hb hlist hnone hdefault (.inr hunset), ?_⟩
    rw [hl.sources, get?_layered_of_not_spells hb hspells, hunset]
    rfl

def shortTimeout : String := "[approval]\ndefault_timeout_secs = 600\n"

/-- The timeout under a key with a dot in it. -/
def quotedPath : String := "\"approval.default_timeout_secs\" = 7\n"

/-- A timeout and, with blanks around it, a number of retries. -/
def twoVariables : Environment :=
  ⟨[("TOLLGATE_DEFAULT_TIMEOUT_SECS", "60"), ("TOLLGATE_MAX_CONFLICT_RETRIES", " 7 ")],
    by decide⟩

theorem each_layer_gives :
    ∃ l, load (some (.ok shortTimeout.toUTF8)) twoVariables = .ok l ∧
      l.Gives timeoutField (.integer 600) .file ∧
      l.Gives retriesField (.integer 7) .environment ∧
      l.Gives levelField (.string "info") .defaults := by
  let top := Value.table [("approval", .table [("default_timeout_secs", .integer 600)])]
  have hsize : shortTimeout.utf8ByteSize ≤ largestFile := by decide
  have hparse : parse? true shortTimeout = some top := by decide +kernel
  have hread : ofTree? (layered twoVariables top).tree = some ⟨⟨600⟩, ⟨7⟩, {}⟩ := by decide +kernel
  have hload := load_toUTF8 hsize hparse hread (by decide +kernel)
  have hopen : ∀ b ∈ bindings.tail,
      top.member? b.sectionKey = none ∧ ¬ Spells top b.path := by
    unfold Spells
    decide
  obtain ⟨_, htop, hgives⟩ := load_precedence hload
  cases (treeOf_toUTF8 hsize hparse).symm.trans htop
  refine ⟨_, hload, (hgives timeoutField (by decide)).1 _ rfl, ?_, ?_⟩
  · obtain ⟨hnone, hspells⟩ := hopen retriesField (by decide)
    obtain ⟨_, -, -, hfilled⟩ := (hgives retriesField (by decide)).2 rfl (by simp [hnone])
    exact (hfilled hspells).1 " 7 " rfl
  · obtain ⟨hnone, hspells⟩ := hopen levelField (by decide)
    obtain ⟨_, ⟨⟩, -, hfilled⟩ := (hgives levelField (by decide)).2 rfl (by simp [hnone])
    exact (hfilled hspells).2 rfl

theorem quoted_path_shuts_variable_out :
    fileTree (some (.ok quotedPath.toUTF8)) =
        .ok (.table [("approval.default_timeout_secs", .integer 7)]) ∧
      twoVariables.get? "TOLLGATE_DEFAULT_TIMEOUT_SECS" = some "60" ∧
      ∃ l, load (some (.ok quotedPath.toUTF8)) twoVariables = .ok l ∧
        l.settings.approval.timeout = 3600 ∧
        l.sources.get? "approval.default_timeout_secs" = some .file := by
  let top := Value.table [("approval.default_timeout_secs", .integer 7)]
  have hsize : quotedPath.utf8ByteSize ≤ largestFile := by decide
  have hparse : parse? true quotedPath = some top := by decide +kernel
  have hread : ofTree? (layered twoVariables top).tree = some ⟨⟨3600⟩, ⟨7⟩, {}⟩ := by decide +kernel
  exact ⟨treeOf_toUTF8 hsize hparse, by decide +kernel, _,
    load_toUTF8 hsize hparse hread (by decide +kernel), rfl, by decide +kernel⟩

end Settings
end Quorum
