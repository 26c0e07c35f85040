import Quorum.Proofs.Precedence

/-!
# The defaults beneath a file

Settings have their defaults twice: as a tree that a file is laid over, and as what a field falls
back on. They are the same ones. A section is read from a table or a list of its fields, and a field
from the part that is there for it (`Toml.Value.record_toJson_iff`,
`Toml.Value.make_toRecord_iff`), so settings read from the file laid over the default tree are those
read from the file (`Settings.ofTree?_overlay`).
-/
namespace Quorum
open Toml Toml.Value

/-- A record takes its fields, and leaves nothing over. -/
theorem Decoder.ofRecord_eq_ok_iff {type : String} {fs : Fields α} {r : Record} {a : α} :
    Decoder.ofRecord type fs r = .ok a ↔ fs.make (fs.expected type) 0 r = .ok a ∧
      Decoder.surplus fs.slots.length r = .ok () := by
  have hparts : ((fun a _ => a) <$> fs.make (fs.expected type) 0 r <*>
      Decoder.surplus fs.slots.length r : Part α) = .ok a ↔
        fs.make (fs.expected type) 0 r = .ok a ∧ Decoder.surplus fs.slots.length r = .ok () := by
    simp only [Part.seq_eq_ok_iff, Part.map_eq_ok_iff]
    constructor
    · rintro ⟨g, u, ⟨a', hmake, rfl⟩, hsurplus, rfl⟩
      exact ⟨hmake, hsurplus⟩
    · rintro ⟨hmake, hsurplus⟩
      exact ⟨_, (), ⟨a, hmake, rfl⟩, hsurplus, rfl⟩
  unfold Decoder.ofRecord
  dsimp only
  constructor
  · intro h
    split at h
    · next hread =>
      cases h
      exact hparts.mp hread
    · cases h
  · intro h
    have hok := hparts.mpr h
    split
    · next hread => exact congrArg Except.ok (Except.ok.inj (hread.symm.trans hok))
    · next hc => cases hc.symm.trans hok

theorem Decoder.surplus_positional_iff {n : Nat} {items : List Json} :
    Decoder.surplus n (.positional items) = .ok () ↔ items.length ≤ n := by
  rw [Decoder.surplus]
  split
  · next h => exact iff_of_true rfl h
  · next h => exact iff_of_false nofun h

namespace Toml.Value
variable {ofMoment : String → Json} {members : List (String × Value)} {items : List Value}
  {key : String} {position n : Nat} {v : Value}

theorem itemsToJson_eq_map : itemsToJson ofMoment items = items.map (toJson ofMoment) := by
  induction items with
  | nil => rfl
  | cons v items ih => rw [itemsToJson, ih, List.map_cons]

/-- What a record has for a field: under its key, or at its position in a list. -/
def part? (key : String) (position : Nat) : Value → Option Value
  | table members => members.lookup key
  | array items => items[position]?
  | _ => none

/-- A table, or a list of no more than `n` items. -/
def Fits (n : Nat) (v : Value) : Prop :=
  v.isTable = true ∨ ∃ items, v = array items ∧ items.length ≤ n

/-- The value `a` of a field, from the part that is there for it. -/
def Takes (ofMoment : String → Json) (d : Decoder α) (fallback : α) (part : Option Value)
    (a : α) : Prop :=
  match part with
  | none => a = fallback
  | some v => d.ofJson (v.toJson ofMoment) = .ok a

/-- A section as a record, by name if it is a table and by position if it is a list. -/
def toRecord (ofMoment : String → Json) : Value → Record
  | table members => .named (membersToJson ofMoment members)
  | array items => .positional (itemsToJson ofMoment items)
  | _ => .named []

theorem make_toRecord_iff {d : Decoder α} {fallback a : α} {expected : String} (h : v.Ordered) :
    (Fields.withDefault [key] fallback d).make expected position (v.toRecord ofMoment) = .ok a ↔
      Takes ofMoment d fallback (v.part? key position) a := by
  cases v with
  | table members =>
    have hnamed : namedMembers [key] (membersToJson ofMoment members) =
        ((members.lookup key).map fun v => (key, v.toJson ofMoment)).toList :=
      namedMembers_membersToJson (ordered_table_iff.mp h).1
    rw [part?, toRecord, Fields.withDefault]
    cases hlookup : members.lookup key with
    | none =>
      rw [hlookup] at hnamed
      rw [Fields.field_eq_ok_iff_of_absent hnamed, Option.some.injEq, Takes, eq_comm]
    | some w =>
      rw [hlookup] at hnamed
      exact Fields.field_eq_ok_iff_of_present hnamed
  | array items =>
    rw [part?, toRecord, itemsToJson_eq_map]
    simp only [Fields.withDefault, Fields.field, List.getElem?_map]
    cases items[position]? with
    | none => exact ⟨fun h => (Except.ok.inj h).symm, fun h => congrArg Except.ok h.symm⟩
    | some w => exact Part.ofJson_eq_ok_iff
  | _ => exact ⟨fun h => (Except.ok.inj h).symm, fun h => congrArg Except.ok h.symm⟩

theorem record_toJson_iff {type : String} {fs : Fields α} {a : α}
    (hkind : v.isTable = true ∨ ∃ items, v = array items) :
    (Decoder.record type fs).ofJson (v.toJson ofMoment) = .ok a ↔
      v.Fits fs.slots.length ∧ fs.make (fs.expected type) 0 (v.toRecord ofMoment) = .ok a := by
  rcases hkind with htable | ⟨items, rfl⟩
  · obtain ⟨members, rfl⟩ := exists_of_isTable htable
    change Decoder.ofRecord type fs (.named _) = .ok a ↔ _
    rw [Decoder.ofRecord_eq_ok_iff]
    exact ⟨fun h => ⟨.inl rfl, h.1⟩, fun h => ⟨h.2, rfl⟩⟩
  · change Decoder.ofRecord type fs (.positional _) = .ok a ↔ _
    rw [Decoder.ofRecord_eq_ok_iff, Decoder.surplus_positional_iff, itemsToJson_eq_map,
      List.length_map, and_comm]
    refine and_congr ⟨fun h => .inr ⟨items, rfl, h⟩, ?_⟩ ?_
    · rintro (⟨⟨⟩⟩ | ⟨_, ⟨⟩, h⟩)
      exact h
    · rw [toRecord, itemsToJson_eq_map]

/-- A record of one field takes what is there for it. -/
theorem single_toJson_iff {type : String} {make : β → α} {d : Decoder β} {fallback : β} {a : α}
    (hv : v.Ordered) (hkind : v.isTable = true ∨ ∃ items, v = array items) :
    (Decoder.record type (make <$> Fields.withDefault [key] fallback d)).ofJson
        (v.toJson ofMoment) = .ok a ↔
      v.Fits 1 ∧ ∃ b, Takes ofMoment d fallback (v.part? key 0) b ∧ make b = a := by
  rw [record_toJson_iff hkind, Fields.map_eq_ok_iff]
  simp only [make_toRecord_iff hv]
  rfl

theorem Fits.kind (h : v.Fits n) : v.isTable = true ∨ ∃ items, v = array items :=
  h.imp_right fun ⟨items, hv, _⟩ => ⟨items, hv⟩

end Toml.Value
namespace Settings
variable {ofMoment : String → Json} {members tops : List (String × Value)} {v top : Value}
  {s : Settings}

theorem Logging.decoder_iff {l : Logging} (hv : v.Ordered)
    (hkind : v.isTable = true ∨ ∃ items, v = array items) :
    Logging.decoder.ofJson (v.toJson ofMoment) = .ok l ↔ v.Fits 3 ∧
      Takes ofMoment .string ({} : Logging).level (v.part? levelKey 0) l.level ∧
      Takes ofMoment .string ({} : Logging).format (v.part? formatKey 1) l.format ∧
      Takes ofMoment (.list .string) ({} : Logging).directives (v.part? directivesKey 2)
        l.directives := by
  simp only [Logging.decoder, record_toJson_iff hkind, Fields.seq_eq_ok_iff, Fields.map_eq_ok_iff,
    make_toRecord_iff hv]
  refine and_congr Iff.rfl ⟨?_, ?_⟩
  · rintro ⟨_, _, ⟨_, _, ⟨_, hlevel, rfl⟩, hformat, rfl⟩, hdirectives, rfl⟩
    exact ⟨hlevel, hformat, hdirectives⟩
  · rintro ⟨hlevel, hformat, hdirectives⟩
    exact ⟨_, _, ⟨_, _, ⟨_, hlevel, rfl⟩, hformat, rfl⟩, hdirectives, rfl⟩

theorem decoder_iff (h : (table members).Ordered) :
    decoder.ofJson ((table members).toJson ofMoment) = .ok s ↔
      Takes ofMoment Approval.decoder {} (members.lookup approvalKey) s.approval ∧
      Takes ofMoment Client.decoder {} (members.lookup clientKey) s.client ∧
      Takes ofMoment Logging.decoder {} (members.lookup loggingKey) s.logging := by
  simp only [decoder, record_toJson_iff (.inl rfl : (table members).isTable = true ∨ _),
    Fields.seq_eq_ok_iff, Fields.map_eq_ok_iff, make_toRecord_iff h]
  constructor
  · rintro ⟨-, _, _, ⟨_, _, ⟨_, happroval, rfl⟩, hclient, rfl⟩, hlogging, rfl⟩
    exact ⟨happroval, hclient, hlogging⟩
  · rintro ⟨happroval, hclient, hlogging⟩
    exact ⟨.inl rfl, _, _, ⟨_, _, ⟨_, happroval, rfl⟩, hclient, rfl⟩, hlogging, rfl⟩

/-- A default put where a part is missing is read as the default of the field. -/
theorem takes_getD {d : Decoder α} {fallback a : α} {part : Option Value} {default : Value}
    (hdefault : d.ofJson (default.toJson .string) = .ok fallback) :
    Takes .string d fallback (some (part.getD default)) a ↔ Takes .string d fallback part a := by
  cases part with
  | none =>
    simp only [Takes, Option.getD_none, hdefault, Except.ok.injEq]
    exact eq_comm
  | some v => rfl

/-- Over a default that is no table, a table has what it had or the default. -/
theorem lookup_overlay_default {defaults : List (String × Value)} {default : Value} (key : String)
    (h : members.Pairwise (·.1 < ·.1)) (hkey : defaults.lookup key = some default)
    (hleaf : default.isTable = false) :
    (overlayMembers defaults members).lookup key =
      some ((members.lookup key).getD default) := by
  rw [lookup_overlayMembers key h, hkey]
  cases members.lookup key with
  | none => rfl
  | some v => simp [overlay_of_not_table hleaf]

/-- A section laid over the default one is read as it would be alone. -/
def Refills (d : Decoder α) (fallback : α) (section₀ : Value) : Prop :=
  d.ofJson (section₀.toJson .string) = .ok fallback ∧
    ∀ v a, v.Ordered → (d.ofJson ((overlay section₀ v).toJson .string) = .ok a ↔
      d.ofJson (v.toJson .string) = .ok a)

def loggingDefaults : List (String × Value) :=
  [(directivesKey, array []), (formatKey, string "compact"), (levelKey, string "info")]

theorem ordered_default {key : String} {defaults : List (String × Value)}
    (hkey : (toTree {}).member? key = some (table defaults)) : (table defaults).Ordered :=
  (ordered_table_iff.mp ordered_defaults).2 _ (mem_of_lookup_eq_some hkey)

theorem Refills.of_tables {d : Decoder α} {fallback : α} {key : String}
    {defaults : List (String × Value)} (hkey : (toTree {}).member? key = some (table defaults))
    (hdefault : d.ofJson ((table defaults).toJson .string) = .ok fallback)
    (htables : ∀ given a, (table given).Ordered → (table (overlayMembers defaults given)).Ordered →
      (d.ofJson ((table (overlayMembers defaults given)).toJson .string) = .ok a ↔
        d.ofJson ((table given).toJson .string) = .ok a)) :
    Refills d fallback (table defaults) := by
  refine ⟨hdefault, fun v a hv => ?_⟩
  cases v with
  | table given => exact htables given a hv (Ordered.overlay (ordered_default hkey) hv)
  | _ => rfl

/-- A section of one field, whose default is what the field falls back on. -/
theorem Refills.of_single {type : String} {make : β → α} {d : Decoder β} {fallback : β}
    {default : Value} {key sectionKey : String}
    (hkey : (toTree {}).member? sectionKey = some (table [(key, default)]))
    (hleaf : default.isTable = false)
    (hdefault : d.ofJson (default.toJson .string) = .ok fallback) :
    Refills (.record type (make <$> Fields.withDefault [key] fallback d)) (make fallback)
      (table [(key, default)]) := by
  have hlookup : [(key, default)].lookup key = some default := by simp
  refine .of_tables hkey ?_ fun given a hgiven hover => ?_
  · refine (single_toJson_iff (ordered_default hkey) (.inl rfl)).mpr ⟨.inl rfl, fallback, ?_, rfl⟩
    rw [part?, hlookup]
    exact hdefault
  · rw [single_toJson_iff hover (.inl rfl), single_toJson_iff hgiven (.inl rfl)]
    refine and_congr (iff_of_true (.inl rfl) (.inl rfl)) (exists_congr fun b => ?_)
    rw [part?, lookup_overlay_default key (ordered_table_iff.mp hgiven).1 hlookup hleaf]
    exact and_congr_left' (takes_getD hdefault)

theorem refills_approval :
    Refills Approval.decoder {} (table [(timeoutKey, integer (3600 : Nat))]) :=
  .of_single (rfl : (toTree {}).member? approvalKey = _) rfl rfl

theorem refills_client : Refills Client.decoder {} (table [(retriesKey, integer (5 : Nat))]) :=
  .of_single (rfl : (toTree {}).member? clientKey = _) rfl rfl

theorem refills_logging : Refills Logging.decoder {} (table loggingDefaults) := by
  have hsection : (toTree {}).member? loggingKey = some (table loggingDefaults) := rfl
  refine .of_tables hsection (by decide) fun given l hgiven hover => ?_
  have hsorted := (ordered_table_iff.mp hgiven).1
  rw [Logging.decoder_iff hover (.inl rfl), Logging.decoder_iff hgiven (.inl rfl)]
  refine and_congr (iff_of_true (.inl rfl) (.inl rfl)) ?_
  simp only [part?]
  rw [lookup_overlay_default levelKey hsorted rfl rfl,
    lookup_overlay_default formatKey hsorted rfl rfl,
    lookup_overlay_default directivesKey hsorted rfl rfl]
  exact and_congr (takes_getD rfl) (and_congr (takes_getD rfl) (takes_getD rfl))

/-- A section of the file over its default is read as it is, or as the default. -/
theorem takes_overlay_iff {d : Decoder α} {fallback a : α} {section₀ : Value} {key : String}
    (hrefills : Refills d fallback section₀) (hkey : (toTree {}).member? key = some section₀)
    (htop : (table tops).Ordered) :
    Takes .string d fallback (((toTree {}).overlay (table tops)).member? key) a ↔
      Takes .string d fallback (tops.lookup key) a := by
  rw [member?_overlay_defaults htop, hkey]
  cases hlookup : tops.lookup key with
  | none =>
    simp only [Takes, hrefills.1, Except.ok.injEq]
    exact eq_comm
  | some v =>
    exact hrefills.2 v a ((ordered_table_iff.mp htop).2 _ (mem_of_lookup_eq_some hlookup))

/-- The defaults beneath a file are the defaults of its fields. -/
theorem ofTree?_overlay (htop : top.Ordered) :
    ofTree? ((toTree {}).overlay top) = ofTree? top := by
  cases top with
  | table tops =>
    refine Option.ext fun s => ?_
    obtain ⟨members, hmembers⟩ : ∃ members, (toTree {}).overlay (table tops) = table members :=
      ⟨_, rfl⟩
    have hordered : (table members).Ordered := hmembers ▸ ordered_defaults.overlay htop
    have hlookup (key : String) :
        members.lookup key = ((toTree {}).overlay (table tops)).member? key := by
      rw [hmembers, member?]
    rw [ofTree?_eq_some_iff, ofTree?_eq_some_iff, hmembers, decoder_iff hordered, decoder_iff htop,
      hlookup, hlookup, hlookup, takes_overlay_iff refills_approval rfl htop,
      takes_overlay_iff refills_client rfl htop, takes_overlay_iff refills_logging rfl htop]
  | _ => rfl

end Settings
end Quorum
