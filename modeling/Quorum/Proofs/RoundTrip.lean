import Quorum.Proofs.Wire

/-!
# Tasks survive their JSON

A vote or a kind is written as its text and a time in its notation, so a value is legible if what is
written of it is read as that value again. A task of legible parts decodes to itself
(`Task.ofJson_toJson`).
-/
namespace Quorum

/-- An instant that is read back from its text. Instants of years beyond the calendar are not. -/
def Instant.Legible (t : Instant) : Prop := parse t.text = .ok t

/-- Not a text that stands for one of the three votes. -/
def Vote.Legible (v : Vote) : Prop := ofText v.text = v

/-- Not a text that stands for a user or a group. -/
def Approver.Kind.Legible (k : Kind) : Prop := ofText k.text = k

/-- An approver that is written without loss: its kind and all its votes are read back as they were.
Names and messages always are. -/
structure Approver.Legible (a : Approver) : Prop where
  kind : a.kind.Legible
  vote : a.vote.Legible
  members : ∀ m ∈ a.members, m.vote.Legible

def Spec.Legible (s : Spec) : Prop := ∀ a ∈ s.approvers, a.Legible

/-- A status that is written without loss. Outcomes always are, while kinds, counts and the start
can be out of reach of their text. -/
structure Status.Legible (s : Status) : Prop where
  required : Bounds.inInt64 s.required = true
  received : Bounds.inInt64 s.received = true
  responses : ∀ r ∈ s.responses, r.kind.Legible
  startTime : ∀ t ∈ s.startTime, t.Legible

/-- A task that is written without loss. Every task that was itself read from JSON is of this
sort. -/
structure Task.Legible (t : Task) : Prop where
  version : t.metadata.version ≤ Bounds.nat64Max
  created : ∀ u ∈ t.metadata.created, u.Legible
  required : Bounds.inInt64 t.spec.required = true
  spec : t.spec.Legible
  status : t.status.Legible

theorem Vote.legible_ofText (text : String) : (ofText text).Legible :=
  congrArg ofText (text_ofText text)

theorem Vote.legible_of_isKnown {v : Vote} (h : v.isKnown = true) : v.Legible := by
  cases v with
  | other => cases h
  | _ => rfl

namespace Decoder
variable {α : Type} {d : Decoder α} {encode : α → Json}

/-- Numbers within their bounds are read back. These are the only conditions on numbers in a
task. -/
theorem int64_ofJson {n : Int} (h : Bounds.inInt64 n = true) : int64.ofJson (.int n) = .ok n := by
  simp only [Bounds.inInt64, Bool.and_eq_true, decide_eq_true_eq] at h
  exact if_pos h

theorem nat64_ofJson {n : Nat} (h : n ≤ Bounds.nat64Max) :
    nat64.ofJson (Json.ofNat n) = .ok n := by
  have hrange : (0 : Int) ≤ n ∧ (n : Int) ≤ Bounds.nat64Max := by omega
  change (Int.toNat <$> if (0 : Int) ≤ n ∧ (n : Int) ≤ Bounds.nat64Max then _ else _) = _
  rw [if_pos hrange]
  rfl

/-- A value is told from no value as long as it is not itself written as null. -/
theorem option_ofJson {j : Json} {a : α} (hj : j ≠ .null) (h : d.ofJson j = .ok a) :
    d.option.ofJson j = .ok (some a) := by
  cases j with
  | null => exact absurd rfl hj
  | _ => simp only [option, h]; rfl

theorem parsed_ofJson {expected s : String} {parse : String → Except String α} {a : α}
    (h : parse s = .ok a) : (parsed expected parse).ofJson (.string s) = .ok a := by
  change (parse s).mapError _ = _
  rw [h]
  rfl

/-- Lists are read back if each of their items is. Here `g` writes an item and `f` reads it. -/
theorem mapM_eq_ok {f : β → Except ε α} {g : α → β} {as : List α}
    (h : ∀ a ∈ as, f (g a) = .ok a) : (as.map g).mapM f = .ok as := by
  induction as with
  | nil => rfl
  | cons a as ih =>
    rw [List.map_cons, List.mapM_cons, h a List.mem_cons_self,
      ih fun b hb => h b (List.mem_cons_of_mem a hb)]
    rfl

theorem list_ofJson {as : List α} (h : ∀ a ∈ as, d.ofJson (encode a) = .ok a) :
    d.list.ofJson (Json.ofList encode as) = .ok as :=
  mapM_eq_ok h

end Decoder

namespace SortedMap
variable {α : Type} {m : SortedMap α} {es : List (String × α)} {key : String}

/-- Of entries with keys of their own each is found. -/
theorem get?_foldl_insert (h : es.Pairwise (·.1 < ·.1)) :
    (es.foldl (fun m e => m.insert e.1 e.2) m).get? key = (es.lookup key).or (m.get? key) := by
  induction es generalizing m with
  | nil => simp
  | cons e es ih =>
    obtain ⟨k, a⟩ := e
    obtain ⟨hk, hes⟩ := List.pairwise_cons.mp h
    rw [List.foldl_cons, ih hes, get?_insert, lookup_cons_if]
    by_cases hkey : key = k
    · subst hkey
      have hnone : es.lookup key = none := by
        rw [List.lookup_eq_none_iff]
        intro e he
        simpa using String.ne_of_lt (hk e he)
      simp [hnone]
    · simp [hkey]

/-- A map is read back from its entries, since they are in key order and each key comes once. -/
theorem ofList_entries (m : SortedMap α) : ofList m.entries = m := by
  refine ext_get? fun key => ?_
  rw [ofList, get?_foldl_insert m.sorted, get?_empty, Option.or_none]
  rfl

theorem eq_empty_of_isEmpty (h : m.isEmpty = true) : m = empty := by
  obtain ⟨es, hs⟩ := m
  obtain rfl : es = [] := List.isEmpty_iff.mp h
  rfl

end SortedMap

theorem Decoder.stringMap_ofJson (m : SortedMap String) :
    stringMap.ofJson (Json.ofMap .string m) = .ok m := by
  have hentries : (m.entries.map fun e => (e.1, Json.string e.2)).mapM
      (fun e => (e.1, ·) <$> Decoder.string.ofJson e.2) = .ok m.entries :=
    mapM_eq_ok fun _ _ => rfl
  change SortedMap.ofList <$> (m.entries.map fun e => (e.1, Json.string e.2)).mapM
    (fun e => (e.1, ·) <$> Decoder.string.ofJson e.2) = _
  rw [hentries]
  exact congrArg Except.ok m.ofList_entries

/-- The members that are written of a list of fields. -/
def Json.written (fs : List Json.Field) : List (String × Json) := fs.filterMap id

theorem Json.ofFields_eq (fs : List Json.Field) : Json.ofFields fs = .object (Json.written fs) :=
  rfl

section
variable {names : List String} {name : String} {j : Json} {present : Bool} {fs : List Json.Field}
  {encode : α → Json} {content : Option α}

/-- Finding a field among the members that were written goes member by member. The three lemmas
below let simplification do it for a list of fields. -/
theorem namedMembers_written_cons (f : Json.Field) :
    namedMembers names (Json.written (f :: fs)) =
      (f.filter fun m => names.contains m.1).toList ++ namedMembers names (Json.written fs) := by
  unfold Json.written
  rw [Json.namedMembers_filterMap, Json.namedMembers_filterMap, List.filterMap_cons]
  cases f.filter fun m => names.contains m.1 <;> rfl

@[simp] theorem namedMembers_nil : namedMembers names (Json.written []) = [] := rfl

@[simp] theorem namedMembers_field :
    namedMembers names (Json.written (Json.field name j :: fs)) =
      (if names.contains name then [(name, j)] else []) ++
        namedMembers names (Json.written fs) := by
  rw [namedMembers_written_cons, Json.filter_field]
  split <;> rfl

@[simp] theorem namedMembers_fieldIf :
    namedMembers names (Json.written (Json.fieldIf present name j :: fs)) =
      (if names.contains name then (Json.fieldIf present name j).toList else []) ++
        namedMembers names (Json.written fs) := by
  rw [namedMembers_written_cons, Json.filter_fieldIf]
  split <;> rfl

@[simp] theorem namedMembers_fieldSome :
    namedMembers names (Json.written (Json.fieldSome name encode content :: fs)) =
      (if names.contains name then (Json.fieldSome name encode content).toList else []) ++
        namedMembers names (Json.written fs) := by
  rw [namedMembers_written_cons, Json.filter_fieldSome]
  split <;> rfl

end

namespace Fields
variable {α : Type} {expected name : String} {position : Nat} {others : List String}
  {members : List (String × Json)} {absent : Option α} {last : Bool} {d : Decoder α} {a : α}

/-- A field that was written is read back, whatever stands around it, if no other member bears one
of its names. -/
theorem make_of_field (j : Json) (h : namedMembers (name :: others) members = [(name, j)])
    (ha : d.ofJson j = .ok a) :
    (field (name :: others) absent last d).make expected position (.named members) = .ok a :=
  (field_eq_ok_iff_of_present h).mpr ha

/-- What is left out only if it is what a missing field stands for. -/
theorem make_of_fieldIf {fallback : α} {present : Bool} (j : Json)
    (h : namedMembers (name :: others) members = (Json.fieldIf present name j).toList)
    (ha : d.ofJson j = .ok a) (habsent : present = false → fallback = a) :
    (withDefault (name :: others) fallback d).make expected position (.named members) = .ok a := by
  cases present with
  | false => exact (field_eq_ok_iff_of_absent h).mpr (congrArg some (habsent rfl))
  | true => exact make_of_field j h ha

/-- An empty list is not written, and its absence is read as the empty list. -/
theorem make_of_list {as : List α} (encode : α → Json)
    (h : namedMembers (name :: others) members =
      (Json.fieldIf (!as.isEmpty) name (Json.ofList encode as)).toList)
    (ha : ∀ a ∈ as, d.ofJson (encode a) = .ok a) :
    (withDefault (name :: others) [] d.list).make expected position (.named members) = .ok as := by
  refine make_of_fieldIf _ h (Decoder.list_ofJson ha) fun hempty => ?_
  cases as with
  | nil => rfl
  | cons => cases hempty

theorem make_of_map {m : SortedMap String}
    (h : namedMembers (name :: others) members =
      (Json.fieldIf (!m.isEmpty) name (Json.ofMap .string m)).toList) :
    (withDefault (name :: others) .empty .stringMap).make expected position (.named members) =
      .ok m :=
  make_of_fieldIf _ h (Decoder.stringMap_ofJson m) fun hempty =>
    (SortedMap.eq_empty_of_isEmpty (by simpa using hempty)).symm

/-- No value is not written, and its absence is read as no value. -/
theorem make_of_fieldSome {content : Option α} (encode : α → Json)
    (h : namedMembers [name] members = (Json.fieldSome name encode content).toList)
    (hnull : ∀ a, encode a ≠ .null) (ha : ∀ a ∈ content, d.ofJson (encode a) = .ok a) :
    (optional name d).make expected position (.named members) = .ok content := by
  unfold optional withDefault
  cases content with
  | none => exact (field_eq_ok_iff_of_absent h).mpr rfl
  | some a => exact make_of_field (encode a) h (Decoder.option_ofJson (hnull a) (ha a rfl))

end Fields

open Json Fields

theorem Member.ofJson_toJson {m : Member} (h : m.vote.Legible) :
    Member.decoder.ofJson m.toJson = .ok m := by
  simp only [decoder, toJson, ofFields_eq, Decoder.record_eq_ok_iff, Fields.seq_eq_ok_iff,
    Fields.map_eq_ok_iff]
  refine ⟨_, m.vote, ⟨m.name, ?_, rfl⟩, ?_, rfl⟩
  · exact make_of_field (.string m.name) (by simp) rfl
  · exact make_of_field m.vote.toJson (by simp) (congrArg Except.ok h)

/-- The round trip of an approver, assembled from those of its fields; the order of `refine` is that
of the decoder's fields. -/
theorem Approver.ofJson_toJson {a : Approver} (h : a.Legible) :
    Approver.decoder.ofJson a.toJson = .ok a := by
  simp only [decoder, toJson, ofFields_eq, Decoder.record_eq_ok_iff, Fields.seq_eq_ok_iff,
    Fields.map_eq_ok_iff]
  refine ⟨_, a.members, ⟨_, a.message, ⟨_, a.vote, ⟨_, a.kind, ⟨a.name, ?_, rfl⟩, ?_, rfl⟩, ?_,
    rfl⟩, ?_, rfl⟩, ?_, rfl⟩
  · exact make_of_field (.string a.name) (by simp) rfl
  · exact make_of_field a.kind.toJson (by simp) (congrArg Except.ok h.kind)
  · exact make_of_field a.vote.toJson (by simp) (congrArg Except.ok h.vote)
  · exact make_of_fieldSome .string (by simp) (by simp) fun _ _ => rfl
  · exact make_of_list Member.toJson (by simp) fun m hm => Member.ofJson_toJson (h.members m hm)

theorem Spec.ofJson_toJson {s : Spec} (h : s.Legible)
    (hrequired : Bounds.inInt64 s.required = true) : Spec.decoder.ofJson s.toJson = .ok s := by
  have happrovers : (Decoder.list Approver.decoder).ofJson (ofList Approver.toJson s.approvers) =
      .ok s.approvers := Decoder.list_ofJson fun a ha => Approver.ofJson_toJson (h a ha)
  simp only [decoder, toJson, ofFields_eq, Decoder.record_eq_ok_iff, Fields.seq_eq_ok_iff,
    Fields.map_eq_ok_iff]
  refine ⟨_, s.description, ⟨_, s.required, ⟨s.approvers, ?_, rfl⟩, ?_, rfl⟩, ?_, rfl⟩
  · exact make_of_field _ (by simp) happrovers
  · exact make_of_field (.int s.required) (by simp) (Decoder.int64_ofJson hrequired)
  · exact make_of_fieldSome .string (by simp) (by simp) fun _ _ => rfl

theorem MemberResponse.ofJson_toJson (m : MemberResponse) :
    MemberResponse.decoder.ofJson m.toJson = .ok m := by
  simp only [decoder, toJson, ofFields_eq, Decoder.record_eq_ok_iff, Fields.seq_eq_ok_iff,
    Fields.map_eq_ok_iff]
  refine ⟨_, m.message, ⟨_, m.response, ⟨m.name, ?_, rfl⟩, ?_, rfl⟩, ?_, rfl⟩
  · exact make_of_field (.string m.name) (by simp) rfl
  · exact make_of_field m.response.toJson (by simp) (Outcome.ofJson_toJson _)
  · exact make_of_fieldSome .string (by simp) (by simp) fun _ _ => rfl

theorem Response.ofJson_toJson {r : Response} (h : r.kind.Legible) :
    Response.decoder.ofJson r.toJson = .ok r := by
  simp only [decoder, toJson, ofFields_eq, Decoder.record_eq_ok_iff, Fields.seq_eq_ok_iff,
    Fields.map_eq_ok_iff]
  refine ⟨_, r.members, ⟨_, r.message, ⟨_, r.response, ⟨_, r.kind, ⟨r.name, ?_, rfl⟩, ?_, rfl⟩, ?_,
    rfl⟩, ?_, rfl⟩, ?_, rfl⟩
  · exact make_of_field (.string r.name) (by simp) rfl
  · exact make_of_field r.kind.toJson (by simp) (congrArg Except.ok h)
  · exact make_of_field r.response.toJson (by simp) (Outcome.ofJson_toJson _)
  · exact make_of_fieldSome .string (by simp) (by simp) fun _ _ => rfl
  · exact make_of_list MemberResponse.toJson (by simp) fun m _ => m.ofJson_toJson

theorem Instant.ofJson_toJson {t : Instant} (h : t.Legible) :
    Instant.decoder.ofJson t.toJson = .ok t := by
  refine Decoder.parsed_ofJson ?_
  rw [show parse t.text = .ok t from h]
  rfl

/-- The round trip of a status. An absent start and an absent reason are the fields that are left
out. -/
theorem Status.ofJson_toJson {s : Status} (h : s.Legible) :
    Status.decoder.ofJson s.toJson = .ok s := by
  have hresponses : (Decoder.list Response.decoder).ofJson (ofList Response.toJson s.responses) =
      .ok s.responses := Decoder.list_ofJson fun r hr => Response.ofJson_toJson (h.responses r hr)
  simp only [decoder, toJson, ofFields_eq, Decoder.record_eq_ok_iff, Fields.seq_eq_ok_iff,
    Fields.map_eq_ok_iff]
  refine ⟨_, s.reason, ⟨_, s.startTime, ⟨_, s.received, ⟨_, s.required, ⟨_, s.responses,
    ⟨_, s.approvers, ⟨s.state, ?_, rfl⟩, ?_, rfl⟩, ?_, rfl⟩, ?_, rfl⟩, ?_, rfl⟩, ?_, rfl⟩, ?_, rfl⟩
  · exact make_of_field s.state.toJson (by simp) (Outcome.ofJson_toJson _)
  · exact make_of_list .string (by simp) fun _ _ => rfl
  · exact make_of_field _ (by simp) hresponses
  · exact make_of_field (.int s.required) (by simp) (Decoder.int64_ofJson h.required)
  · exact make_of_field (.int s.received) (by simp) (Decoder.int64_ofJson h.received)
  · exact make_of_fieldSome Instant.toJson (by simp) (by simp [Instant.toJson])
      fun u hu => Instant.ofJson_toJson (h.startTime u hu)
  · exact make_of_fieldSome .string (by simp) (by simp) fun _ _ => rfl

theorem Metadata.ofJson_toJson {m : Metadata} (hversion : m.version ≤ Bounds.nat64Max)
    (hcreated : ∀ t ∈ m.created, t.Legible) : Metadata.decoder.ofJson m.toJson = .ok m := by
  simp only [decoder, toJson, ofFields_eq, Decoder.record_eq_ok_iff, Fields.seq_eq_ok_iff,
    Fields.map_eq_ok_iff]
  refine ⟨_, m.created, ⟨_, m.annotations, ⟨_, m.labels, ⟨_, m.version, ⟨_, m.space,
    ⟨m.name, ?_, rfl⟩, ?_, rfl⟩, ?_, rfl⟩, ?_, rfl⟩, ?_, rfl⟩, ?_, rfl⟩
  · exact make_of_field (.string m.name) (by simp) rfl
  · exact make_of_fieldSome .string (by simp) (by simp) fun _ _ => rfl
  · exact make_of_field (.ofNat m.version) (by simp) (Decoder.nat64_ofJson hversion)
  · exact make_of_map (by simp)
  · exact make_of_map (by simp)
  · exact make_of_fieldSome Instant.toJson (by simp) (by simp [Instant.toJson])
      fun u hu => Instant.ofJson_toJson (hcreated u hu)

/-- What is written of a legible task is read as the same task. Admission judges tasks that were
written in this way, so it judges the tasks that clients hold. -/
theorem Task.ofJson_toJson {t : Task} (h : t.Legible) : Task.decoder.ofJson t.toJson = .ok t := by
  simp only [decoder, toJson, ofFields_eq, Decoder.record_eq_ok_iff, Fields.seq_eq_ok_iff,
    Fields.map_eq_ok_iff]
  refine ⟨_, t.status, ⟨_, t.spec, ⟨t.metadata, ?_, rfl⟩, ?_, rfl⟩, ?_, rfl⟩
  · exact make_of_field _ (by simp) (Metadata.ofJson_toJson h.version h.created)
  · exact make_of_field _ (by simp) (Spec.ofJson_toJson h.spec h.required)
  · exact make_of_field _ (by simp) (Status.ofJson_toJson h.status)

end Quorum
