import Quorum.Proofs.Revealed
import Quorum.Proofs.Underlay

/-!
# A file on its own

A file is loaded over the default tree, or on its own and completed by the defaults of the fields.
It is one document read in two ways: over the defaults tables may stand for dates and times, which
are then text, and on its own they are tables of their own kind. Settings are read alike from the
two trees if every section is a table or a list of no more than its fields
(`Settings.loadAlone_iff_of_sectioned`), but for dates and times among the directives; no level and
no format starts with a digit. So the two ways to load a file differ in just these places
(`Settings.alone_as_layered_unless_dated`).
-/
namespace Quorum
open Toml Toml.Value

namespace Toml.Value

/-- A value stands somewhere in another one, in a list or under a key, however deep. -/
inductive Inside (v : Value) : Value → Prop
  | here : Inside v v
  | item (items : List Value) (w : Value) (hw : w ∈ items) (h : Inside v w) :
      Inside v (array items)
  | member (members : List (String × Value)) (m : String × Value) (hm : m ∈ members)
      (h : Inside v m.2) : Inside v (table members)

variable {p t v w : Value} {ps ts : List Value} {key : String} {position n : Nat}

theorem inside_part? (h : w.part? key position = some v) : v.Inside w := by
  cases w with
  | table members => exact .member members _ (mem_of_lookup_eq_some h) .here
  | array items => exact .item items v (List.mem_of_getElem? h) .here
  | _ => cases h

/-- Wherever a document has a moment, the text of it starts with a digit. -/
theorem startsWithDigit_of_inside {revealing : Bool} {document text : String}
    (h : parse? revealing document = some v) (hinside : (moment text).Inside v) :
    Moment.StartsWithDigit text := by
  have hinherited : Inherited fun v => ∀ text, (moment text).Inside v →
      Moment.StartsWithDigit text := by
    refine ⟨nofun, nofun, nofun, nofun, ?_, ?_, ?_⟩
    · rintro _ _ _ text htext _ ⟨⟩
      exact Moment.startsWithDigit_of_normal? htext
    · intro items hitems text h
      cases h with
      | item _ w hw h => exact hitems w hw text h
    · intro members _ hmembers text h
      cases h with
      | member _ m hm h => exact hmembers m hm text h
  exact hinherited.parse? h text hinside

namespace Reveals

theorem rel_getElem? (h : List.Forall₂ Reveals ps ts) (i : Nat) :
    Option.Rel Reveals ps[i]? ts[i]? := by
  induction h generalizing i with
  | nil => exact .none
  | cons hreveals _ ih =>
    cases i with
    | zero => exact .some hreveals
    | succ i => exact ih i

/-- Of a table or a list the parts are revealed one by one. -/
theorem part? (h : p.Reveals t) (hfits : t.Fits n) :
    Option.Rel Reveals (p.part? key position) (t.part? key position) := by
  rcases hfits with htable | ⟨ts, rfl, -⟩
  · obtain ⟨tops, rfl⟩ := exists_of_isTable htable
    obtain ⟨members, rfl, hmembers⟩ := h.of_table
    exact hmembers key
  · obtain ⟨ps, rfl, hitems⟩ := h.of_array
    exact rel_getElem? hitems position

theorem fits (h : p.Reveals t) (hfits : t.Fits n) : p.Fits n := by
  rcases hfits with htable | ⟨ts, rfl, hlength⟩
  · obtain ⟨tops, rfl⟩ := exists_of_isTable htable
    obtain ⟨members, rfl, -⟩ := h.of_table
    exact .inl rfl
  · obtain ⟨ps, rfl, hitems⟩ := h.of_array
    exact .inr ⟨ps, rfl, hitems.length_eq ▸ hlength⟩

theorem fits_of_rel {plain revealed : Option Value} (hrel : Option.Rel Reveals plain revealed)
    (h : ∀ t, revealed = some t → t.Fits n) : ∀ p, plain = some p → p.Fits n := by
  rintro p rfl
  cases hrel with
  | some hreveals => exact hreveals.fits (h _ rfl)

end Reveals

end Toml.Value

namespace Settings
variable {p t v : Value} {members tops : List (String × Value)} {n : Nat} {s : Settings}
  {content : FileContent} {top : Value}

section
variable {d : Decoder α} {fallback a : α} {plain revealed : Option Value}
  (hrel : Option.Rel Reveals plain revealed)
include hrel

/-- A part is read alike where its values are. -/
theorem takes_congr (h : ∀ p t, plain = some p → revealed = some t → p.Reveals t →
      (d.ofJson (p.toJson ofMoment) = .ok a ↔ d.ofJson (t.toJson .string) = .ok a)) :
    Takes ofMoment d fallback plain a ↔ Takes .string d fallback revealed a := by
  cases hrel with
  | none => rfl
  | some hreveals => exact h _ _ rfl rfl hreveals

/-- A part that may be dated when it is there is read alike unless it is. -/
theorem takes_iff {dated : Option Value → Prop} (hnone : ¬ dated none)
    (h : ∀ p t, plain = some p → revealed = some t → p.Reveals t →
      (d.ofJson (p.toJson ofMoment) = .ok a ↔
        d.ofJson (t.toJson .string) = .ok a ∧ ¬ dated (some t))) :
    Takes ofMoment d fallback plain a ↔ Takes .string d fallback revealed a ∧ ¬ dated revealed := by
  cases hrel with
  | none => exact ⟨fun ha => ⟨ha, hnone⟩, fun ha => ha.1⟩
  | some hreveals => exact h _ _ rfl rfl hreveals

end

/-- A date or time stands for a text. -/
def DatedText (part : Option Value) : Prop := ∃ date, part = some (moment date)

/-- A date or time stands among texts. -/
def DatedTexts (part : Option Value) : Prop :=
  ∃ items, part = some (array items) ∧ ∃ date, moment date ∈ items

/-- A number is an integer in either way. -/
theorem natural_iff {high : Int} {type : String} (h : p.Reveals t) :
    ((Decoder.integer 0 high type).map Int.toNat).ofJson (p.toJson ofMoment) = .ok n ↔
      ((Decoder.integer 0 high type).map Int.toNat).ofJson (t.toJson .string) = .ok n := by
  cases h with
  | same =>
    cases p with
    | moment | array | table => exact iff_of_false nofun nofun
    | float x => cases x <;> rfl
    | _ => rfl
  | _ => exact iff_of_false nofun nofun

/-- Text is a string in either way; only where it is revealed may it be a date or time. -/
theorem text_iff {text : String} (h : p.Reveals t) :
    Decoder.string.ofJson (p.toJson ofMoment) = .ok text ↔
      Decoder.string.ofJson (t.toJson .string) = .ok text ∧ ¬ DatedText (some t) := by
  cases h with
  | same =>
    cases p with
    | moment date => exact iff_of_false nofun fun h => h.2 ⟨date, rfl⟩
    | array | table => exact iff_of_false nofun nofun
    | float x => cases x <;> exact iff_of_false nofun nofun
    | _ => exact ⟨fun h => ⟨h, nofun⟩, fun h => h.1⟩
  | moment ps date => exact iff_of_false nofun fun h => h.2 ⟨date, rfl⟩
  | _ => exact iff_of_false nofun nofun

theorem texts_mapM_iff {ps ts : List Value} {texts : List String}
    (h : List.Forall₂ Reveals ps ts) :
    (itemsToJson ofMoment ps).mapM Decoder.string.ofJson = .ok texts ↔
      (itemsToJson .string ts).mapM Decoder.string.ofJson = .ok texts ∧
        ¬ ∃ date, moment date ∈ ts := by
  induction h generalizing texts with
  | nil => exact ⟨fun h => ⟨h, nofun⟩, fun h => h.1⟩
  | cons hreveals _ ih =>
    simp only [itemsToJson, List.mapM_cons, bind_eq_ok_iff, ih, text_iff hreveals]
    constructor
    · rintro ⟨text, ⟨htext, hhead⟩, texts', ⟨htexts, htail⟩, htotal⟩
      refine ⟨⟨text, htext, texts', htexts, htotal⟩, ?_⟩
      rintro ⟨date, hdate⟩
      rcases List.mem_cons.mp hdate with rfl | hdate
      · exact hhead ⟨date, rfl⟩
      · exact htail ⟨date, hdate⟩
    · rintro ⟨⟨text, htext, texts', htexts, htotal⟩, hdates⟩
      refine ⟨text, ⟨htext, ?_⟩, texts', ⟨htexts, ?_⟩, htotal⟩
      · rintro ⟨date, ⟨⟩⟩
        exact hdates ⟨date, List.mem_cons_self⟩
      · rintro ⟨date, hdate⟩
        exact hdates ⟨date, List.mem_cons_of_mem _ hdate⟩

theorem datedTexts_array_iff {items : List Value} :
    DatedTexts (some (array items)) ↔ ∃ date, moment date ∈ items := by
  simp [DatedTexts]

theorem texts_iff {texts : List String} (h : p.Reveals t) :
    (Decoder.list .string).ofJson (p.toJson ofMoment) = .ok texts ↔
      (Decoder.list .string).ofJson (t.toJson .string) = .ok texts ∧ ¬ DatedTexts (some t) := by
  cases h with
  | same =>
    cases p with
    | array items =>
      rw [datedTexts_array_iff]
      exact texts_mapM_iff (Reveals.refl_items items)
    | float x => cases x <;> exact iff_of_false nofun nofun
    | _ => exact iff_of_false nofun nofun
  | array ps ts hitems =>
    rw [datedTexts_array_iff]
    exact texts_mapM_iff hitems
  | _ => exact iff_of_false nofun nofun

/-- How many fields each section has. -/
def sectionSizes : List (String × Nat) := [(approvalKey, 1), (clientKey, 1), (loggingKey, 3)]

/-- Every section that is there is a table, or a list of no more than its fields. -/
def Sectioned (top : Value) : Prop :=
  top.isTable = true ∧ ∀ size ∈ sectionSizes, ∀ v, top.member? size.1 = some v → v.Fits size.2

/-- A date or time stands for some text of a logging section, or among the directives. -/
def Logging.Dated (part : Option Value) : Prop :=
  DatedText (part.bind (part? levelKey 0)) ∨ DatedText (part.bind (part? formatKey 1)) ∨
    DatedTexts (part.bind (part? directivesKey 2))

theorem Logging.not_dated_none : ¬ Logging.Dated none := by
  rintro (⟨_, ⟨⟩⟩ | ⟨_, ⟨⟩⟩ | ⟨_, ⟨⟩, _⟩)

section
variable (h : p.Reveals t) (hp : p.Ordered) (ht : t.Ordered)
include h hp ht

/-- A section of one number is read alike whether its dates are told apart or not: a number is never
a date. -/
theorem single_alone_iff {type type' key : String} {make : Nat → α} {high : Int} {fallback : Nat}
    {a : α} (hfits : t.Fits 1) :
    (Decoder.record type (make <$> Fields.withDefault [key] fallback
        ((Decoder.integer 0 high type').map Int.toNat))).ofJson (p.toJson ofMoment) = .ok a ↔
      (Decoder.record type (make <$> Fields.withDefault [key] fallback
        ((Decoder.integer 0 high type').map Int.toNat))).ofJson (t.toJson .string) = .ok a := by
  have hplain := h.fits hfits
  rw [single_toJson_iff hp hplain.kind, single_toJson_iff ht hfits.kind]
  refine and_congr (iff_of_true hplain hfits) (exists_congr fun n => and_congr_left' ?_)
  exact takes_congr (h.part? hfits) fun _ _ _ _ => natural_iff

theorem Logging.alone_iff {l : Logging} (hfits : t.Fits 3) :
    Logging.decoder.ofJson (p.toJson ofMoment) = .ok l ↔
      Logging.decoder.ofJson (t.toJson .string) = .ok l ∧ ¬ Logging.Dated (some t) := by
  have hplain := h.fits hfits
  rw [Logging.decoder_iff hp hplain.kind, Logging.decoder_iff ht hfits.kind,
    and_iff_right hplain, and_iff_right hfits,
    takes_iff (h.part? hfits) nofun fun _ _ _ _ => text_iff,
    takes_iff (h.part? hfits) nofun fun _ _ _ _ => text_iff,
    takes_iff (h.part? hfits) nofun fun _ _ _ _ => texts_iff, Logging.Dated, not_or, not_or]
  constructor
  · rintro ⟨⟨hlevel, hlevel'⟩, ⟨hformat, hformat'⟩, hdirectives, hdirectives'⟩
    exact ⟨⟨hlevel, hformat, hdirectives⟩, hlevel', hformat', hdirectives'⟩
  · rintro ⟨⟨hlevel, hformat, hdirectives⟩, hlevel', hformat', hdirectives'⟩
    exact ⟨⟨hlevel, hlevel'⟩, ⟨hformat, hformat'⟩, hdirectives, hdirectives'⟩

end

/-- Settings are read alike from the two trees of one document, unless its logging section has a
date. -/
theorem alone_iff (hp : (table members).Ordered) (ht : (table tops).Ordered)
    (hrel : ∀ key, Option.Rel Reveals (members.lookup key) (tops.lookup key))
    (hsectioned : Sectioned (table tops)) :
    decoder.ofJson ((table members).toJson ofMoment) = .ok s ↔
      ofTree? (table tops) = some s ∧ ¬ Logging.Dated (tops.lookup loggingKey) := by
  have hpart {key : String} {p : Value} (hlookup : members.lookup key = some p) : p.Ordered :=
    (ordered_table_iff.mp hp).2 _ (mem_of_lookup_eq_some hlookup)
  have htop {key : String} {t : Value} (hlookup : tops.lookup key = some t) : t.Ordered :=
    (ordered_table_iff.mp ht).2 _ (mem_of_lookup_eq_some hlookup)
  have happroval : Takes ofMoment Approval.decoder {} (members.lookup approvalKey) s.approval ↔
      Takes .string Approval.decoder {} (tops.lookup approvalKey) s.approval :=
    takes_congr (hrel approvalKey) fun _ _ hplain hrevealed h =>
      single_alone_iff h (hpart hplain) (htop hrevealed)
        (hsectioned.2 (approvalKey, 1) (by decide) _ hrevealed)
  have hclient : Takes ofMoment Client.decoder {} (members.lookup clientKey) s.client ↔
      Takes .string Client.decoder {} (tops.lookup clientKey) s.client :=
    takes_congr (hrel clientKey) fun _ _ hplain hrevealed h =>
      single_alone_iff h (hpart hplain) (htop hrevealed)
        (hsectioned.2 (clientKey, 1) (by decide) _ hrevealed)
  have hlogging : Takes ofMoment Logging.decoder {} (members.lookup loggingKey) s.logging ↔
      Takes .string Logging.decoder {} (tops.lookup loggingKey) s.logging ∧
        ¬ Logging.Dated (tops.lookup loggingKey) :=
    takes_iff (hrel loggingKey) Logging.not_dated_none fun _ _ hplain hrevealed h =>
      Logging.alone_iff h (hpart hplain) (htop hrevealed)
        (hsectioned.2 (loggingKey, 3) (by decide) _ hrevealed)
  rw [ofTree?_eq_some_iff, decoder_iff hp, decoder_iff ht, happroval, hclient, hlogging]
  simp only [and_assoc]

theorem limitItems_toJson {key : String} {m : String × Value} (h : m.1 = key → m.2.Fits n) :
    limitItems key n (m.1, m.2.toJson ofMoment) = (m.1, m.2.toJson ofMoment) := by
  obtain ⟨k, v⟩ := m
  cases v with
  | array items =>
    rw [Value.toJson, limitItems, itemsToJson_eq_map]
    split
    · next hkey =>
      rcases h hkey with ⟨⟨⟩⟩ | ⟨_, ⟨⟩, hlength⟩
      rw [List.take_of_length_le (by rwa [List.length_map])]
    · rfl
  | float x => cases x <;> rfl
  | _ => rfl

/-- Sections that have no more items than fields lose none. -/
theorem sectionsOf_eq_self (hp : (table members).Ordered)
    (h : ∀ size ∈ sectionSizes, ∀ v, members.lookup size.1 = some v → v.Fits size.2) :
    sectionsOf ((table members).toJson ofMoment) = (table members).toJson ofMoment := by
  have hfits {m : String × Value} (hm : m ∈ members) {key : String} {n : Nat}
      (hsize : (key, n) ∈ sectionSizes) (hkey : m.1 = key) : m.2.Fits n := by
    subst hkey
    exact h _ hsize m.2 ((mem_iff_lookup_eq_some (ordered_table_iff.mp hp).1).mp hm)
  rw [Value.toJson, sectionsOf, membersToJson_eq_map, List.map_map]
  refine congrArg _ (List.map_congr_left fun m hm => ?_)
  rw [Function.comp_apply, limitItems_toJson (hfits hm (by decide)),
    limitItems_toJson (hfits hm (by decide)), limitItems_toJson (hfits hm (by decide))]

theorem fits_of_record {type : String} {fs : Fields α} {a : α}
    (h : (Decoder.record type fs).ofJson (v.toJson .string) = .ok a) : v.Fits fs.slots.length :=
  ((record_toJson_iff (table_or_array_of_record h)).mp h).1

/-- Settings are only read from sections of the right shape. -/
theorem sectioned_of_ofTree? (ht : (table tops).Ordered) (h : ofTree? (table tops) = some s) :
    Sectioned (table tops) := by
  obtain ⟨happroval, hclient, hlogging⟩ := sections_of_ofTree? (ordered_table_iff.mp ht).1 h
  refine ⟨rfl, fun size hsize v hv => ?_⟩
  rcases List.mem_cons.mp hsize with rfl | hsize
  · exact fits_of_record (happroval v hv)
  rcases List.mem_cons.mp hsize with rfl | hsize
  · exact fits_of_record (hclient v hv)
  · obtain rfl := List.mem_singleton.mp hsize
    exact fits_of_record (hlogging v hv)

/-- A date or time stands among the directives of a file. -/
def DatedDirectives (top : Value) : Prop :=
  DatedTexts ((top.member? loggingKey).bind (part? directivesKey 2))

/-- A name among those that start with no digit was not spelled as a date or time. -/
theorem not_datedText_of_takes {b : Environment.Binding} {part : Option Value}
    {fallback name : String} (hb : b ∈ Environment.bindings) (hvalid : s.problem? = none)
    (hname : s.toTree.at? b.keys = some (string name))
    (htakes : Takes .string .string fallback part name)
    (hmoment : ∀ date, part = some (moment date) → Moment.StartsWithDigit date) :
    ¬ DatedText part := by
  rintro ⟨date, rfl⟩
  obtain rfl : date = name := Except.ok.inj htakes
  exact not_startsWithDigit hb hvalid hname (hmoment date rfl)

/-- Of valid settings only directives can be dates or times. -/
theorem dated_iff_of_valid {document : String} (hparse : parse? true document = some (table tops))
    (hread : ofTree? (table tops) = some s) (hvalid : s.problem? = none) :
    Logging.Dated (tops.lookup loggingKey) ↔ DatedDirectives (table tops) := by
  obtain ⟨hsorted, hmembers⟩ := ordered_table_iff.mp (ordered_of_parse? hparse)
  obtain ⟨-, -, hlogging⟩ := sections_of_ofTree? hsorted hread
  rw [DatedDirectives, member?]
  cases hlookup : tops.lookup loggingKey with
  | none =>
    refine iff_of_false Logging.not_dated_none ?_
    rintro ⟨_, ⟨⟩, _⟩
  | some v =>
    have hmem := mem_of_lookup_eq_some hlookup
    have hdecodes := hlogging v hlookup
    obtain ⟨-, hlevel, hformat, -⟩ :=
      (Logging.decoder_iff (hmembers _ hmem) (table_or_array_of_record hdecodes)).mp hdecodes
    have hmoment {key : String} {position : Nat} (date : String)
        (hpart : v.part? key position = some (moment date)) : Moment.StartsWithDigit date :=
      startsWithDigit_of_inside hparse (.member tops _ hmem (inside_part? hpart))
    have hlevelField : Environment.levelField ∈ Environment.bindings := by decide
    have hformatField : Environment.formatField ∈ Environment.bindings := by decide
    have hnoLevel := not_datedText_of_takes hlevelField hvalid rfl hlevel hmoment
    have hnoFormat := not_datedText_of_takes hformatField hvalid rfl hformat hmoment
    rw [Logging.Dated, Option.bind_some, Option.bind_some, Option.bind_some,
      or_iff_right hnoLevel, or_iff_right hnoFormat]

theorem treeOf_eq_ok_iff {revealing : Bool} :
    treeOf revealing content = .ok v ↔
      ∃ text, textOf content = .ok text ∧ parse? revealing text = some v :=
  bind_eq_ok_iff.trans (exists_congr fun _ => and_congr_right' treeOfText_eq_ok_iff)

/-- A file with a tree in which moments are revealed has one in which they are not. -/
theorem exists_plain (h : treeOf true content = .ok top) :
    ∃ plain, treeOf false content = .ok plain ∧ plain.Reveals top ∧
      plain.Ordered ∧ top.Ordered := by
  obtain ⟨text, htext, hparse⟩ := treeOf_eq_ok_iff.mp h
  obtain ⟨o, ho, -⟩ := Option.bind_eq_some_iff.mp hparse
  obtain ⟨plain, hplain, hreveals⟩ := exists_reveals_of_outline? ho
  exact ⟨plain, treeOf_eq_ok_iff.mpr ⟨text, htext, hplain⟩, hreveals top hparse,
    ordered_of_parse? hplain, ordered_of_parse? hparse⟩

theorem validate_eq_ok_iff {s' : Settings} :
    s.validate = .ok s' ↔ s = s' ∧ s.problem? = none := by
  unfold validate
  cases s.problem? with
  | none => simp
  | some problem => simp

theorem loadAlone_eq_ok_iff :
    loadAlone content = .ok s ↔ ∃ plain, treeOf false content = .ok plain ∧
      decoder.ofJson (sectionsOf (plain.toJson ofMoment)) = .ok s ∧ s.problem? = none := by
  refine bind_eq_ok_iff.trans (exists_congr fun plain => and_congr_right' ?_)
  cases decoder.ofJson (sectionsOf (plain.toJson ofMoment)) with
  | error e => exact iff_of_false nofun nofun
  | ok s' =>
    rw [Except.ok.injEq]
    refine validate_eq_ok_iff.trans ⟨?_, ?_⟩
    · rintro ⟨rfl, h⟩
      exact ⟨rfl, h⟩
    · rintro ⟨rfl, h⟩
      exact ⟨rfl, h⟩

theorem fillIn_empty (l : Layered) : Environment.fillIn .empty l = l := by
  have hnone : Environment.applicable .empty l.sources = [] := by
    refine List.eq_nil_iff_forall_not_mem.mpr fun ⟨b, text⟩ hmem => ?_
    obtain ⟨-, -, ⟨⟩⟩ := Environment.mem_applicable_iff.mp hmem
  rw [Environment.fillIn, hnone, List.foldl_nil]

theorem fileTree_eq (hexists : content ≠ .error .missing) :
    fileTree (some content) = treeOf true content := by
  unfold fileTree
  split
  · next h => cases h
  · next h => exact absurd (Option.some.inj h) hexists
  · next h => rw [Option.some.inj h]

/-- With no variables set, settings are those of the file, over no defaults. -/
theorem exists_load_iff (hexists : content ≠ .error .missing) :
    (∃ l, load (some content) .empty = .ok l ∧ l.settings = s) ↔
      ∃ top, treeOf true content = .ok top ∧ ofTree? top = some s ∧ s.problem? = none := by
  constructor
  · rintro ⟨l, hload, rfl⟩
    obtain ⟨top, htop, -, hread, hvalid⟩ := load_eq_ok hload
    rw [fillIn_empty] at hread
    exact ⟨top, fileTree_eq hexists ▸ htop,
      (ofTree?_overlay (ordered_of_fileTree htop)).symm.trans hread, hvalid⟩
  · rintro ⟨top, htop, hread, hvalid⟩
    have hordered : top.Ordered := ordered_of_fileTree ((fileTree_eq hexists).trans htop)
    have hover : ofTree? (base.merge .file "" top).tree = some s :=
      (ofTree?_overlay hordered).trans hread
    have hlayers : layers (some content) = .ok (base.merge .file "" top, true) := by
      rw [layers_eq]
      split
      · next h => cases h
      · next h => exact absurd (Option.some.inj h) hexists
      · next h =>
        cases Option.some.inj h
        exact bind_eq_ok_iff.mpr ⟨top, htop, rfl⟩
    refine ⟨⟨s, (base.merge .file "" top).sources, true⟩,
      bind_eq_ok_iff.mpr ⟨_, hlayers, ?_⟩, rfl⟩
    simp only [fillIn_empty, hover]
    exact bind_eq_ok_iff.mpr ⟨s, validate_eq_ok_iff.mpr ⟨rfl, hvalid⟩, rfl⟩

theorem sectioned_of_treeOf (htop : treeOf true content = .ok top)
    (hread : ofTree? top = some s) : Sectioned top := by
  obtain ⟨text, -, hparse⟩ := treeOf_eq_ok_iff.mp htop
  rcases table_or_moment_of_parse? hparse with ⟨tops, rfl⟩ | ⟨moment, rfl⟩
  · exact sectioned_of_ofTree? (ordered_of_parse? hparse) hread
  · cases hread

/-- A file with sections of the right shape is read on its own as it is over the defaults, if no
date or time stands among the directives. -/
theorem loadAlone_iff_of_sectioned (htop : treeOf true content = .ok top)
    (hsectioned : Sectioned top) :
    loadAlone content = .ok s ↔
      ofTree? top = some s ∧ s.problem? = none ∧ ¬ DatedDirectives top := by
  obtain ⟨text, -, hparse⟩ := treeOf_eq_ok_iff.mp htop
  obtain ⟨plain, hplain, hreveals, hp, ht⟩ := exists_plain htop
  obtain ⟨tops, rfl⟩ := exists_of_isTable hsectioned.1
  obtain ⟨members, rfl, hrel⟩ := hreveals.of_table
  have hfits : ∀ size ∈ sectionSizes, ∀ v, members.lookup size.1 = some v → v.Fits size.2 :=
    fun size hsize => Reveals.fits_of_rel (hrel size.1) (hsectioned.2 size hsize)
  rw [loadAlone_eq_ok_iff]
  constructor
  · rintro ⟨_, hplain', hread, hvalid⟩
    cases hplain.symm.trans hplain'
    rw [sectionsOf_eq_self hp hfits, alone_iff hp ht hrel hsectioned] at hread
    exact ⟨hread.1, hvalid, mt (dated_iff_of_valid hparse hread.1 hvalid).mpr hread.2⟩
  · rintro ⟨hread, hvalid, hdated⟩
    refine ⟨_, hplain, ?_, hvalid⟩
    rw [sectionsOf_eq_self hp hfits, alone_iff hp ht hrel hsectioned]
    exact ⟨hread, mt (dated_iff_of_valid hparse hread hvalid).mp hdated⟩

theorem exists_error_iff {x : Except ε α} : (∃ e, x = .error e) ↔ ¬ ∃ a, x = .ok a := by
  cases x <;> simp

/-- Of a file that exists, what is laid over the defaults is read as it would be without them, and
where it gives settings both over the defaults and on its own, these are equal. But a date or time
among the directives is text over the defaults only. And only on its own a file can be read in which
a section is a date or time or has more items than fields, or in which something is marked as a date
or time and spells none. -/
theorem alone_as_layered_unless_dated (hexists : content ≠ .error .missing) :
    (∀ top, treeOf true content = .ok top →
      ofTree? ((toTree {}).overlay top) = ofTree? top) ∧
    (∀ l s, load (some content) .empty = .ok l → loadAlone content = .ok s → l.settings = s) ∧
    (∀ l, load (some content) .empty = .ok l →
      ((∃ e, loadAlone content = .error e) ↔
        ∃ top, treeOf true content = .ok top ∧ DatedDirectives top)) ∧
    (∀ s, loadAlone content = .ok s →
      ((∃ e, load (some content) .empty = .error e) ↔
        ∀ top, treeOf true content = .ok top → ¬ Sectioned top)) := by
  refine ⟨fun top htop => ?_, fun l s hload halone => ?_, fun l hload => ?_, fun s halone => ?_⟩
  · exact ofTree?_overlay (ordered_of_fileTree ((fileTree_eq hexists).trans htop))
  · obtain ⟨top, htop, hread, -⟩ := (exists_load_iff hexists).mp ⟨l, hload, rfl⟩
    have hsectioned := sectioned_of_treeOf htop hread
    obtain ⟨hread', -⟩ := (loadAlone_iff_of_sectioned htop hsectioned).mp halone
    exact Option.some.inj (hread.symm.trans hread')
  · obtain ⟨top, htop, hread, hvalid⟩ := (exists_load_iff hexists).mp ⟨l, hload, rfl⟩
    have hsectioned := sectioned_of_treeOf htop hread
    rw [exists_error_iff]
    constructor
    · intro hfails
      refine ⟨top, htop, by_contra fun hdated => hfails ⟨l.settings, ?_⟩⟩
      exact (loadAlone_iff_of_sectioned htop hsectioned).mpr ⟨hread, hvalid, hdated⟩
    · rintro ⟨top', htop', hdated⟩ ⟨s, halone⟩
      cases htop.symm.trans htop'
      exact ((loadAlone_iff_of_sectioned htop hsectioned).mp halone).2.2 hdated
  · rw [exists_error_iff]
    constructor
    · intro hfails top htop hsectioned
      obtain ⟨hread, hvalid, -⟩ := (loadAlone_iff_of_sectioned htop hsectioned).mp halone
      obtain ⟨l, hload, -⟩ := (exists_load_iff hexists).mpr ⟨top, htop, hread, hvalid⟩
      exact hfails ⟨l, hload⟩
    · rintro hshape ⟨l, hload⟩
      obtain ⟨top, htop, hread, -⟩ := (exists_load_iff hexists).mp ⟨l, hload, rfl⟩
      exact hshape top htop (sectioned_of_treeOf htop hread)

theorem short_timeout_alone :
    ∃ top l s, treeOf true (.ok shortTimeout.toUTF8) = .ok top ∧
      ofTree? ((toTree {}).overlay top) = ofTree? top ∧
      load (some (.ok shortTimeout.toUTF8)) .empty = .ok l ∧
      loadAlone (.ok shortTimeout.toUTF8) = .ok s ∧ l.settings = s := by
  let top := Value.table [("approval", .table [("default_timeout_secs", .integer 600)])]
  have hsize : shortTimeout.utf8ByteSize ≤ largestFile := by decide
  have hparse : parse? true shortTimeout = some top := by decide +kernel
  have htop := treeOf_toUTF8 hsize hparse
  have hread : ofTree? top = some ⟨⟨600⟩, {}, {}⟩ := by decide +kernel
  have hexists : (.ok shortTimeout.toUTF8 : FileContent) ≠ .error .missing := nofun
  obtain ⟨l, hload, -⟩ :=
    (exists_load_iff hexists).mpr ⟨top, htop, hread, by decide +kernel⟩
  have hplain : parse? false shortTimeout = some top := by decide +kernel
  have halone : loadAlone (.ok shortTimeout.toUTF8) = .ok ⟨⟨600⟩, {}, {}⟩ :=
    loadAlone_eq_ok_iff.mpr
      ⟨top, treeOf_toUTF8 hsize hplain, by decide +kernel, by decide +kernel⟩
  obtain ⟨hover, hsame, -⟩ := alone_as_layered_unless_dated hexists
  exact ⟨top, l, _, htop, hover top htop, hload, halone, hsame l _ hload halone⟩

/-- A date for a section. -/
def datedSection : String := "approval = 2026-01-01\n"

/-- A date for a directive. -/
def datedDirective : String := "[logging]\ndirectives = [2026-01-01]\n"

theorem dates_part_the_ways :
    (loadAlone (.ok datedSection.toUTF8) = .ok {} ∧
      ∃ e, load (some (.ok datedSection.toUTF8)) .empty = .error e) ∧
    (∃ l, load (some (.ok datedDirective.toUTF8)) .empty = .ok l ∧
        l.settings.logging.directives = ["2026-01-01"]) ∧
      ∃ e, loadAlone (.ok datedDirective.toUTF8) = .error e := by
  let dated := Value.table [("approval", .moment "2026-01-01")]
  let directed := Value.table [("logging", .table [("directives", .array [.moment "2026-01-01"])])]
  have htree (revealing : Bool) : treeOf revealing (.ok datedSection.toUTF8) = .ok dated := by
    refine treeOf_toUTF8 (by decide) ?_
    cases revealing <;> decide +kernel
  have htree' (revealing : Bool) : treeOf revealing (.ok datedDirective.toUTF8) = .ok directed := by
    refine treeOf_toUTF8 (by decide) ?_
    cases revealing <;> decide +kernel
  have hexists {bytes : ByteArray} : (.ok bytes : FileContent) ≠ .error .missing := nofun
  refine ⟨⟨?_, ?_⟩, ?_, ?_⟩
  · have hread : decoder.ofJson (sectionsOf (dated.toJson ofMoment)) = .ok {} := by decide +kernel
    exact loadAlone_eq_ok_iff.mpr ⟨dated, htree false, hread, by decide +kernel⟩
  · rw [exists_error_iff]
    rintro ⟨l, hload⟩
    obtain ⟨_, htop, hread, -⟩ := (exists_load_iff hexists).mp ⟨l, hload, rfl⟩
    cases (htree true).symm.trans htop
    have hnone : ofTree? dated = none := by decide +kernel
    exact absurd hread (by simp [hnone])
  · have hread : ofTree? directed = some { logging := { directives := ["2026-01-01"] } } := by
      decide +kernel
    obtain ⟨l, hload, hl⟩ :=
      (exists_load_iff hexists).mpr ⟨directed, htree' true, hread, by decide +kernel⟩
    exact ⟨l, hload, congrArg (·.logging.directives) hl⟩
  · rw [exists_error_iff]
    rintro ⟨s, halone⟩
    obtain ⟨_, hplain, hread, -⟩ := loadAlone_eq_ok_iff.mp halone
    cases (htree' false).symm.trans hplain
    have hnone : (decoder.ofJson (sectionsOf (directed.toJson ofMoment))).toOption = none := by
      decide +kernel
    rw [hread] at hnone
    cases hnone

end Settings
end Quorum
