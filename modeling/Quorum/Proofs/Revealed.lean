import Mathlib.Data.List.Forall2
import Quorum.Proofs.Overlay

/-!
# One document read in two ways

A document has one value in which a table may stand for the moment that it spells, and one in which
every table is a table. They are built alike (`Toml.Value.Reveals`): the one is the other with
moments in the place of some tables. The plain value always exists, the other one only if every
table that says it is a moment spells one (`Toml.exists_reveals_of_outline?`).
-/
namespace Quorum.Toml

namespace Value

/-- `t` is `p` with moments in the place of some tables. -/
inductive Reveals : Value → Value → Prop
  | same (v : Value) : Reveals v v
  | array (ps ts : List Value) (h : List.Forall₂ Reveals ps ts) : Reveals (array ps) (array ts)
  | table (ps ts : List (String × Value))
      (h : ∀ key, Option.Rel Reveals (ps.lookup key) (ts.lookup key)) :
      Reveals (table ps) (table ts)
  | moment (ps : List (String × Value)) (text : String) : Reveals (table ps) (moment text)

namespace Reveals
variable {p t : Value} {ps ts : List Value} {members tops : List (String × Value)}

theorem refl_items (vs : List Value) : List.Forall₂ Reveals vs vs :=
  List.forall₂_same.mpr fun v _ => .same v

theorem refl_part (o : Option Value) : Option.Rel Reveals o o := by
  cases o with
  | none => exact .none
  | some v => exact .some (.same v)

/-- What a list was before its moments were revealed was a list of as many items. -/
theorem of_array (h : p.Reveals (Value.array ts)) :
    ∃ ps, p = Value.array ps ∧ List.Forall₂ Reveals ps ts := by
  cases h with
  | same => exact ⟨ts, rfl, refl_items ts⟩
  | array ps _ h => exact ⟨ps, rfl, h⟩

/-- A table that is still a table after revealing was one before, with the same keys. -/
theorem of_table (h : p.Reveals (Value.table tops)) :
    ∃ members, p = Value.table members ∧
      ∀ key, Option.Rel Reveals (members.lookup key) (tops.lookup key) := by
  cases h with
  | same => exact ⟨tops, rfl, fun _ => refl_part _⟩
  | table members _ h => exact ⟨members, rfl, h⟩

end Reveals

theorem rel_lookup_putEntry {p t : Value} {ps ts : List (String × Value)} {key : String}
    (h : p.Reveals t) (hmembers : ∀ k, Option.Rel Reveals (ps.lookup k) (ts.lookup k))
    (k : String) :
    Option.Rel Reveals ((putEntry key p ps).lookup k) ((putEntry key t ts).lookup k) := by
  rw [lookup_putEntry, lookup_putEntry]
  split
  · exact .some h
  · exact hmembers k

end Value

namespace Outline
open Value

mutual
/-- Every outline makes a value when nothing is revealed, and this is what the revealed one reveals.
The five theorems follow the shape of outlines; tables of one list are made from the back, hence the
argument `done`. -/
theorem exists_reveals : (o : Outline) →
    ∃ p, toValue? false o = some p ∧ ∀ t, toValue? true o = some t → p.Reveals t
  | .value v => by
    refine ⟨v, rfl, ?_⟩
    rintro t ⟨⟩
    exact .same v
  | .array items => by
    obtain ⟨ps, hps, hreveals⟩ := exists_revealsItems items
    refine ⟨.array ps, congrArg (Option.map Value.array) hps, fun t ht => ?_⟩
    obtain ⟨ts, hts, rfl⟩ := Option.map_eq_some_iff.mp ht
    exact .array ps ts (hreveals ts hts)
  | .closed ms => by
    obtain ⟨ps, hps, hreveals⟩ := exists_revealsTable ms
    exact ⟨.table ps, hps, hreveals⟩
  | .table _ ms => by
    obtain ⟨ps, hps, hreveals⟩ := exists_revealsTable ms
    exact ⟨.table ps, hps, hreveals⟩
  | .tables items => by
    obtain ⟨ps, hps, hreveals⟩ := exists_revealsTables items []
    refine ⟨.array ps, congrArg (Option.map Value.array) hps, fun t ht => ?_⟩
    obtain ⟨ts, hts, rfl⟩ := Option.map_eq_some_iff.mp ht
    exact .array ps ts (hreveals [] ts .nil hts)
theorem exists_revealsItems : (items : List Outline) →
    ∃ ps, itemsToValues? false items = some ps ∧
      ∀ ts, itemsToValues? true items = some ts → List.Forall₂ Reveals ps ts
  | [] => by
    refine ⟨[], rfl, ?_⟩
    rintro ts ⟨⟩
    exact .nil
  | o :: items => by
    obtain ⟨p, hp, hreveal⟩ := exists_reveals o
    obtain ⟨ps, hps, hreveals⟩ := exists_revealsItems items
    refine ⟨p :: ps, by simp [itemsToValues?, hp, hps], fun ts hts => ?_⟩
    simp only [itemsToValues?, Option.bind_eq_bind, Option.bind_eq_some_iff] at hts
    obtain ⟨t, ht, ts', hts', ⟨⟩⟩ := hts
    exact .cons (hreveal t ht) (hreveals ts' hts')
theorem exists_revealsTables : (items : List Members) → (done : List Value) →
    ∃ ps, tablesToValues? false items done = some ps ∧
      ∀ done' ts, List.Forall₂ Reveals done done' → tablesToValues? true items done' = some ts →
        List.Forall₂ Reveals ps ts
  | [], done => by
    refine ⟨done, rfl, ?_⟩
    rintro done' ts hdone ⟨⟩
    exact hdone
  | ms :: items, done => by
    obtain ⟨p, hp, hreveal⟩ := exists_revealsTable ms
    obtain ⟨ps, hps, hreveals⟩ := exists_revealsTables items (.table p :: done)
    refine ⟨ps, by simp [tablesToValues?, hp, hps], fun done' ts hdone hts => ?_⟩
    simp only [tablesToValues?, Option.bind_eq_bind, Option.bind_eq_some_iff] at hts
    obtain ⟨t, ht, hts⟩ := hts
    exact hreveals (t :: done') ts (.cons (hreveal t ht) hdone) hts
/-- The only place where revealing can fail: a table whose key says that it stands for a moment must
spell one. -/
theorem exists_revealsTable : (ms : Members) →
    ∃ ps, tableToValue? false ms = some (.table ps) ∧
      ∀ t, tableToValue? true ms = some t → (Value.table ps).Reveals t
  | [] => by
    refine ⟨[], rfl, ?_⟩
    rintro t ⟨⟩
    exact .same _
  | (key, o) :: ms => by
    obtain ⟨p, hp, hreveal⟩ := exists_reveals o
    obtain ⟨ps, hps, hreveals⟩ := exists_revealsMembers ms
    refine ⟨putEntry key p ps, by simp [tableToValue?, hp, hps], fun t ht => ?_⟩
    simp only [tableToValue?, Option.bind_eq_bind, Option.bind_eq_some_iff] at ht
    obtain ⟨w, hw, ht⟩ := ht
    split at ht
    · -- the first key says that the table is a moment
      cases w with
      | string s =>
        obtain ⟨text, -, rfl⟩ := Option.map_eq_some_iff.mp ht
        exact .moment _ text
      | _ => cases ht
    · obtain ⟨ts, hts, ⟨⟩⟩ := Option.bind_eq_some_iff.mp ht
      exact .table _ _ (rel_lookup_putEntry (hreveal w hw) (hreveals ts hts))
theorem exists_revealsMembers : (ms : Members) →
    ∃ ps, membersToValues? false ms = some ps ∧
      ∀ ts, membersToValues? true ms = some ts →
        ∀ key, Option.Rel Reveals (ps.lookup key) (ts.lookup key)
  | [] => by
    refine ⟨[], rfl, ?_⟩
    rintro ts ⟨⟩ key
    exact .none
  | (key, o) :: ms => by
    obtain ⟨p, hp, hreveal⟩ := exists_reveals o
    obtain ⟨ps, hps, hreveals⟩ := exists_revealsMembers ms
    refine ⟨putEntry key p ps, by simp [membersToValues?, hp, hps], fun ts hts => ?_⟩
    simp only [membersToValues?, Option.bind_eq_bind, Option.bind_eq_some_iff] at hts
    obtain ⟨t, ht, ts', hts', ⟨⟩⟩ := hts
    exact rel_lookup_putEntry (hreveal t ht) (hreveals ts' hts')
end

end Outline

/-- The plain value of a document, and what it stands for if everything in it is spelled. -/
theorem exists_reveals_of_outline? {text : String} {o : Outline} (h : outline? text = some o) :
    ∃ p, parse? false text = some p ∧ ∀ t, parse? true text = some t → p.Reveals t := by
  obtain ⟨p, hp, hreveals⟩ := Outline.exists_reveals o
  refine ⟨p, by rw [parse?, h, Option.bind_some, hp], fun t ht => hreveals t ?_⟩
  rwa [parse?, h, Option.bind_some] at ht

end Quorum.Toml
