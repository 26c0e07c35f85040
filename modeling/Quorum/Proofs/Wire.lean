import Quorum.Proofs.Review
import Quorum.Wire.Task

/-!
# Decoding what was encoded, field by field

A record decodes if each of its fields does, wherever they stand. Of an encoded record a field finds
the member that was written for it, or none if that member was left out, so that the fields of a
task can be followed through its JSON one at a time.
-/
namespace Quorum

theorem Part.map_eq_ok_iff {f : α → β} {x : Part α} {b : β} :
    f <$> x = (.ok b : Part β) ↔ ∃ a, x = .ok a ∧ f a = b := by
  cases x with
  | error c =>
    constructor
    · intro h
      cases h
    · intro h
      obtain ⟨a, ha, -⟩ := h
      cases ha
  | ok a =>
    constructor
    · intro h
      cases h
      exact ⟨a, rfl, rfl⟩
    · intro h
      obtain ⟨a', ⟨⟩, rfl⟩ := h
      rfl

/-- Two parts make something together exactly if each makes something by itself; which complaint
wins does not matter for that. -/
theorem Part.seq_eq_ok_iff {f : Part (α → β)} {x : Part α} {b : β} :
    f <*> x = (.ok b : Part β) ↔ ∃ g a, f = .ok g ∧ x = .ok a ∧ g a = b := by
  cases f with
  | error c =>
    constructor
    · intro h
      cases x <;> cases h
    · intro h
      obtain ⟨g, a, hg, -⟩ := h
      cases hg
  | ok g =>
    cases x with
    | error c =>
      constructor
      · intro h
        cases h
      · intro h
        obtain ⟨g', a, -, ha, -⟩ := h
        cases ha
    | ok a =>
      constructor
      · intro h
        cases h
        exact ⟨g, a, rfl, rfl, rfl⟩
      · intro h
        obtain ⟨g', a', ⟨⟩, ⟨⟩, rfl⟩ := h
        rfl

namespace Fields
variable {expected : String} {position : Nat} {r : Record}

theorem map_eq_ok_iff {f : α → β} {x : Fields α} {b : β} :
    (f <$> x).make expected position r = .ok b ↔
      ∃ a, x.make expected position r = .ok a ∧ f a = b := by
  change (Part.pure f <*> x.make expected position r : Part β) = .ok b ↔ _
  rw [Part.seq_eq_ok_iff]
  constructor
  · intro h
    obtain ⟨g, a, ⟨⟩, ha, hb⟩ := h
    exact ⟨a, ha, hb⟩
  · intro h
    obtain ⟨a, ha, hb⟩ := h
    exact ⟨f, a, rfl, ha, hb⟩

/-- Fields are made one behind the other, each from its own position in the record. -/
theorem seq_eq_ok_iff {f : Fields (α → β)} {x : Fields α} {b : β} :
    (f <*> x).make expected position r = .ok b ↔
      ∃ g a, f.make expected position r = .ok g ∧
        x.make expected (position + f.slots.length) r = .ok a ∧ g a = b :=
  Part.seq_eq_ok_iff

end Fields

theorem Part.ofJson_eq_ok_iff {d : Decoder α} {place : Nat} {j : Json} {a : α} :
    Part.ofJson d place j = .ok a ↔ d.ofJson j = .ok a := by
  unfold Part.ofJson
  cases d.ofJson j with
  | error e =>
    constructor
    · intro h
      cases h
    · intro h
      cases h
  | ok a' =>
    constructor
    · intro h
      cases h
      rfl
    · intro h
      cases h
      rfl

/-- The members that a field of these names may take its value from. -/
def namedMembers (names : List String) (members : List (String × Json)) : List (String × Json) :=
  members.filter fun m => names.contains m.1

theorem map_fst_occurring (names : List String) (members : List (String × Json)) (n : Nat) :
    ((members.zipIdx n).filter fun ((k, _), _) => names.contains k).map Prod.fst =
      namedMembers names members := by
  unfold namedMembers
  induction members generalizing n with
  | nil => rfl
  | cons m members ih =>
    rw [List.zipIdx_cons, List.filter_cons, List.filter_cons]
    by_cases h : names.contains m.1
    · rw [if_pos h, if_pos h, List.map_cons, ih]
    · rw [if_neg h, if_neg h, ih]

theorem occurrences_of_namedMembers_eq_nil {names : List String}
    {members : List (String × Json)} (h : namedMembers names members = []) :
    occurrences names members = (none, none) := by
  unfold occurrences
  rw [← map_fst_occurring names members 0, List.map_eq_nil_iff] at h
  rw [h]

/-- The position of a member only matters for complaints, so that it can be left open here. -/
theorem occurrences_of_namedMembers_eq_singleton {names : List String}
    {members : List (String × Json)} {m : String × Json}
    (h : namedMembers names members = [m]) :
    ∃ i, occurrences names members = (some (i, m.2), none) := by
  unfold occurrences
  rw [← map_fst_occurring names members 0, List.map_eq_singleton_iff] at h
  obtain ⟨⟨m', i⟩, hfilter, rfl⟩ := h
  rw [hfilter]
  exact ⟨i, rfl⟩

namespace Fields
variable {expected : String} {position : Nat} {names : List String}
  {members : List (String × Json)} {absent : Option α} {last : Bool} {d : Decoder α} {a : α}

/-- A field that is there once is made from its member and from nothing else. -/
theorem field_eq_ok_iff_of_present {m : String × Json} (h : namedMembers names members = [m]) :
    (field names absent last d).make expected position (.named members) = .ok a ↔
      d.ofJson m.2 = .ok a := by
  obtain ⟨i, hoccurs⟩ := occurrences_of_namedMembers_eq_singleton h
  simp only [field, hoccurs, Part.ofJson_eq_ok_iff]

/-- A field that is not there has its fallback, if it has one. -/
theorem field_eq_ok_iff_of_absent (h : namedMembers names members = []) :
    (field names absent last d).make expected position (.named members) = .ok a ↔
      absent = some a := by
  simp only [field, occurrences_of_namedMembers_eq_nil h]
  cases absent with
  | none =>
    constructor
    · intro hmake
      cases hmake
    · intro hsome
      cases hsome
  | some a' =>
    constructor
    · intro hmake
      cases hmake
      rfl
    · intro hsome
      cases hsome
      rfl

end Fields

/-- How a decoder of these fields calls a record that ends too early. -/
def Fields.expected (type : String) (fs : Fields α) : String :=
  let n := fs.slots.length
  let elements := if n = 1 then "element" else "elements"
  s!"struct {type} with {n} {elements}"

/-- An object is read as a record by its fields alone, and members that belong to no field are
passed over. -/
theorem Decoder.record_eq_ok_iff {type : String} {fs : Fields α}
    {members : List (String × Json)} {a : α} :
    (Decoder.record type fs).ofJson (.object members) = .ok a ↔
      fs.make (fs.expected type) 0 (.named members) = .ok a := by
  have hparts (a' : α) : ((fun a _ => a) <$> fs.make (fs.expected type) 0 (.named members) <*>
      Decoder.surplus fs.slots.length (.named members) : Part α) = .ok a' ↔
        fs.make (fs.expected type) 0 (.named members) = .ok a' := by
    rw [Part.seq_eq_ok_iff]
    constructor
    · intro h
      obtain ⟨g, ⟨⟩, hfields, -, rfl⟩ := h
      obtain ⟨a'', hmake, rfl⟩ := Part.map_eq_ok_iff.mp hfields
      exact hmake
    · intro hmake
      exact ⟨_, (), Part.map_eq_ok_iff.mpr ⟨a', hmake, rfl⟩, rfl, rfl⟩
  change Decoder.ofRecord type fs (.named members) = .ok a ↔ _
  rw [← hparts, Decoder.ofRecord]
  split
  · next a' h =>
    constructor
    · intro h
      obtain ⟨⟩ := h
      exact h
    · intro ha
      exact congrArg Except.ok (Except.ok.inj (h.symm.trans ha))
  · next c h =>
    constructor
    · intro ha
      cases ha
    · intro ha
      cases h.symm.trans ha

namespace Json
variable {names : List String} {name : String} {value : Json} {present : Bool} {encode : α → Json}
  {content : Option α}

theorem filter_field :
    (field name value).filter (fun m => names.contains m.1) =
      if names.contains name then field name value else none := by
  simp only [field, Option.filter_some]

theorem filter_fieldIf :
    (fieldIf present name value).filter (fun m => names.contains m.1) =
      if names.contains name then fieldIf present name value else none := by
  cases present with
  | false => simp [fieldIf]
  | true => simp [fieldIf, Option.filter_some]

theorem filter_fieldSome :
    (fieldSome name encode content).filter (fun m => names.contains m.1) =
      if names.contains name then fieldSome name encode content else none := by
  cases content with
  | none => simp [fieldSome]
  | some a => simp [fieldSome, Option.filter_some]

/-- The members of an encoded record that a field may take its value from. -/
theorem namedMembers_filterMap (fields : List Field) :
    namedMembers names (fields.filterMap id) =
      fields.filterMap fun f => f.filter fun m => names.contains m.1 := by
  unfold namedMembers
  rw [List.filter_filterMap]
  rfl

end Json

theorem Outcome.ofJson_toJson (o : Outcome) : Outcome.decoder.ofJson o.toJson = .ok o := by
  cases o <;> rfl

/-- What the specification and the status of a task decode to, a task of the encoded one has. -/
theorem Task.decoder_eq_ok {t u : Task} (h : Task.decoder.ofJson t.toJson = .ok u) :
    Spec.decoder.ofJson t.spec.toJson = .ok u.spec ∧
      Status.decoder.ofJson t.status.toJson = .ok u.status := by
  simp only [decoder, toJson, Json.ofFields, Decoder.record_eq_ok_iff, Fields.seq_eq_ok_iff,
    Fields.map_eq_ok_iff, Fields.withDefault] at h
  obtain ⟨_, status, ⟨_, spec, ⟨metadata, -, rfl⟩, hspec, rfl⟩, hstatus, rfl⟩ := h
  rw [Fields.field_eq_ok_iff_of_present (m := ("spec", t.spec.toJson)) rfl] at hspec
  rw [Fields.field_eq_ok_iff_of_present (m := ("status", t.status.toJson)) rfl] at hstatus
  exact ⟨hspec, hstatus⟩

/-- However a status comes back from its JSON, its state is the one that was written. -/
theorem Status.state_of_decoder_eq_ok {s s' : Status}
    (h : Status.decoder.ofJson s.toJson = .ok s') : s'.state = s.state := by
  simp only [decoder, toJson, Json.ofFields, Decoder.record_eq_ok_iff, Fields.seq_eq_ok_iff,
    Fields.map_eq_ok_iff, Fields.withDefault] at h
  obtain ⟨_, _, ⟨_, _, ⟨_, _, ⟨_, _, ⟨_, _, ⟨_, _, ⟨state, hstate, rfl⟩, -, rfl⟩, -, rfl⟩, -, rfl⟩,
    -, rfl⟩, -, rfl⟩, -, rfl⟩ := h
  have hmembers : namedMembers ["state"] (List.filterMap id
      [Json.field "state" s.state.toJson,
        Json.fieldIf (!s.approvers.isEmpty) "approvers" (Json.ofList .string s.approvers),
        Json.field "approversResponse" (Json.ofList Response.toJson s.responses),
        Json.field "approvalsRequired" (.int s.required),
        Json.field "approvalsReceived" (.int s.received),
        Json.fieldSome "startTime" Instant.toJson s.startTime,
        Json.fieldSome "reason" .string s.reason]) = [("state", s.state.toJson)] := by
    rw [Json.namedMembers_filterMap]
    simp only [List.filterMap_cons, List.filterMap_nil, Json.filter_field, Json.filter_fieldIf,
      Json.filter_fieldSome]
    simp [Json.field]
  rw [Fields.field_eq_ok_iff_of_present hmembers, Outcome.ofJson_toJson] at hstate
  cases hstate
  rfl

end Quorum
