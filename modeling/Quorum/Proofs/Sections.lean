import Quorum.Proofs.Canonical
import Quorum.Proofs.Fallback
import Quorum.Settings.Load

/-!
# Settings read from a tree

A section is read from a table of its fields, or from a list of them, and from nothing else
(`Settings.table_or_array_of_ofTree?`). In a table every bound field holds what stands under its key
(`Settings.at?_toTree_of_ofTree?`), a number or a string; a moment would be read as its text, but
no level and no format starts with a digit.
-/
namespace Quorum
open Toml Toml.Value

namespace Toml.Value
variable {ofMoment : String → Json} {members : List (String × Value)} {key : String} {v : Value}

theorem membersToJson_eq_map :
    membersToJson ofMoment members = members.map fun m => (m.1, m.2.toJson ofMoment) := by
  induction members with
  | nil => rfl
  | cons m members ih => rw [membersToJson, ih, List.map_cons]

theorem namedMembers_membersToJson (h : members.Pairwise (·.1 < ·.1)) :
    namedMembers [key] (membersToJson ofMoment members) =
      ((members.lookup key).map fun v => (key, v.toJson ofMoment)).toList := by
  rw [membersToJson_eq_map, namedMembers]
  induction members with
  | nil => rfl
  | cons m members ih =>
    obtain ⟨k, w⟩ := m
    have hnone := lookup_eq_none_of_pairwise h
    have ih := ih (List.pairwise_cons.mp h).2
    rw [List.map_cons, List.filter_cons, ih, lookup_cons_if]
    by_cases hkey : key = k
    · subst hkey
      simp [hnone]
    · have hkey' : k ≠ key := Ne.symm hkey
      simp [hkey, hkey']

/-- What a field takes from a table is what stands under its key. -/
theorem of_withDefault_toJson {d : Decoder α} {fallback a : α} {expected : String}
    {position : Nat} (h : members.Pairwise (·.1 < ·.1)) (hv : members.lookup key = some v)
    (hmake : (Fields.withDefault [key] fallback d).make expected position
      (.named (membersToJson ofMoment members)) = .ok a) :
    d.ofJson (v.toJson ofMoment) = .ok a := by
  refine (Fields.field_eq_ok_iff_of_present (m := (key, v.toJson ofMoment)) ?_).mp hmake
  rw [namedMembers_membersToJson h, hv]
  rfl

/-- A record is read from a table or a list. -/
theorem table_or_array_of_record {type : String} {fs : Fields α} {a : α}
    (h : (Decoder.record type fs).ofJson (v.toJson .string) = .ok a) :
    v.isTable = true ∨ ∃ items, v = array items := by
  cases v with
  | table => exact .inl rfl
  | array items => exact .inr ⟨items, rfl⟩
  | float x => cases x <;> cases h
  | _ => cases h

theorem eq_of_integer {low high n : Int} {type : String}
    (h : (Decoder.integer low high type).ofJson (v.toJson .string) = .ok n) : v = integer n := by
  cases v with
  | integer m =>
    change (if low ≤ m ∧ m ≤ high then Except.ok m else _) = _ at h
    split at h
    · cases h
      rfl
    · cases h
  | float x => cases x <;> cases h
  | _ => cases h

/-- A natural number is read from an integer. -/
theorem eq_of_toNat {high : Int} {type : String} {n : Nat}
    (h : ((Decoder.integer 0 high type).map Int.toNat).ofJson (v.toJson .string) = .ok n) :
    v = integer n := by
  obtain ⟨m, hm, rfl⟩ := exists_of_map_eq_ok h
  have hsign := (Decoder.integer_yields _ _ _ _ _ hm).1
  rw [eq_of_integer hm, Int.toNat_of_nonneg hsign]

theorem eq_of_string {s : String} (h : Decoder.string.ofJson (v.toJson .string) = .ok s) :
    v = string s ∨ v = moment s := by
  cases v with
  | string s' =>
    cases h
    exact .inl rfl
  | moment text =>
    cases h
    exact .inr rfl
  | float x => cases x <;> cases h
  | _ => cases h

end Toml.Value

namespace Settings
variable {members fields : List (String × Value)} {s : Settings} {v w : Value}

theorem ofTree?_eq_some_iff : ofTree? v = some s ↔ decoder.ofJson (v.toJson .string) = .ok s := by
  unfold ofTree?
  cases decoder.ofJson (v.toJson .string) <;> simp [Except.toOption]

/-- The three sections of settings read from a table. -/
theorem sections_of_ofTree? (h : members.Pairwise (·.1 < ·.1))
    (hread : ofTree? (table members) = some s) :
    (∀ v, members.lookup approvalKey = some v →
      Approval.decoder.ofJson (v.toJson .string) = .ok s.approval) ∧
    (∀ v, members.lookup clientKey = some v →
      Client.decoder.ofJson (v.toJson .string) = .ok s.client) ∧
    (∀ v, members.lookup loggingKey = some v →
      Logging.decoder.ofJson (v.toJson .string) = .ok s.logging) := by
  have hdecodes : decoder.ofJson (.object (membersToJson .string members)) = .ok s :=
    ofTree?_eq_some_iff.mp hread
  simp only [decoder, Decoder.record_eq_ok_iff, Fields.seq_eq_ok_iff, Fields.map_eq_ok_iff]
    at hdecodes
  obtain ⟨_, logging, ⟨_, client, ⟨approval, happroval, rfl⟩, hclient, rfl⟩, hlogging, rfl⟩ :=
    hdecodes
  exact ⟨fun v hv => of_withDefault_toJson h hv happroval,
    fun v hv => of_withDefault_toJson h hv hclient,
    fun v hv => of_withDefault_toJson h hv hlogging⟩

theorem Approval.eq_of_decoder {a : Approval} (h : fields.Pairwise (·.1 < ·.1))
    (hdecodes : Approval.decoder.ofJson ((table fields).toJson .string) = .ok a)
    (hw : fields.lookup timeoutKey = some w) : w = integer a.timeout := by
  simp only [Approval.decoder, Value.toJson, Decoder.record_eq_ok_iff, Fields.map_eq_ok_iff]
    at hdecodes
  obtain ⟨timeout, hmake, rfl⟩ := hdecodes
  exact eq_of_toNat (of_withDefault_toJson h hw hmake)

theorem Client.eq_of_decoder {c : Client} (h : fields.Pairwise (·.1 < ·.1))
    (hdecodes : Client.decoder.ofJson ((table fields).toJson .string) = .ok c)
    (hw : fields.lookup retriesKey = some w) : w = integer c.retries := by
  simp only [Client.decoder, Value.toJson, Decoder.record_eq_ok_iff, Fields.map_eq_ok_iff]
    at hdecodes
  obtain ⟨retries, hmake, rfl⟩ := hdecodes
  exact eq_of_toNat (of_withDefault_toJson h hw hmake)

theorem Logging.eq_of_decoder {l : Logging} (h : fields.Pairwise (·.1 < ·.1))
    (hdecodes : Logging.decoder.ofJson ((table fields).toJson .string) = .ok l) :
    (∀ w, fields.lookup levelKey = some w → w = string l.level ∨ w = moment l.level) ∧
    (∀ w, fields.lookup formatKey = some w → w = string l.format ∨ w = moment l.format) := by
  simp only [Logging.decoder, Value.toJson, Decoder.record_eq_ok_iff, Fields.seq_eq_ok_iff,
    Fields.map_eq_ok_iff] at hdecodes
  obtain ⟨_, directives, ⟨_, format, ⟨level, hlevel, rfl⟩, hformat, rfl⟩, -, rfl⟩ := hdecodes
  exact ⟨fun w hw => eq_of_string (of_withDefault_toJson h hw hlevel),
    fun w hw => eq_of_string (of_withDefault_toJson h hw hformat)⟩

/-- Where a section is there, it is a table or a list. -/
theorem table_or_array_of_ofTree? {b : Environment.Binding} (hb : b ∈ Environment.bindings)
    (h : members.Pairwise (·.1 < ·.1)) (hread : ofTree? (table members) = some s)
    (hv : members.lookup b.sectionKey = some v) : v.isTable = true ∨ ∃ items, v = array items := by
  obtain ⟨happroval, hclient, hlogging⟩ := sections_of_ofTree? h hread
  rcases Environment.eq_of_mem_bindings hb with rfl | rfl | rfl | rfl
  · exact table_or_array_of_record (happroval v hv)
  · exact table_or_array_of_record (hclient v hv)
  · exact table_or_array_of_record (hlogging v hv)
  · exact table_or_array_of_record (hlogging v hv)

/-- Of one section the same fields are read, whatever the rest of the tree. -/
theorem at?_toTree_eq_of_section {b : Environment.Binding} (hb : b ∈ Environment.bindings)
    {members' : List (String × Value)} {s' : Settings} (h : members.Pairwise (·.1 < ·.1))
    (h' : members'.Pairwise (·.1 < ·.1)) (hread : ofTree? (table members) = some s)
    (hread' : ofTree? (table members') = some s') (hv : members.lookup b.sectionKey = some v)
    (hv' : members'.lookup b.sectionKey = some v) : s.toTree.at? b.keys = s'.toTree.at? b.keys := by
  obtain ⟨happroval, hclient, hlogging⟩ := sections_of_ofTree? h hread
  obtain ⟨happroval', hclient', hlogging'⟩ := sections_of_ofTree? h' hread'
  rcases Environment.eq_of_mem_bindings hb with rfl | rfl | rfl | rfl
  · have hsame : s.approval = s'.approval :=
      Except.ok.inj ((happroval v hv).symm.trans (happroval' v hv'))
    exact congrArg (fun a : Approval => some (integer a.timeout)) hsame
  · have hsame : s.client = s'.client := Except.ok.inj ((hclient v hv).symm.trans (hclient' v hv'))
    exact congrArg (fun c : Client => some (integer c.retries)) hsame
  · have hsame : s.logging = s'.logging :=
      Except.ok.inj ((hlogging v hv).symm.trans (hlogging' v hv'))
    exact congrArg (fun l : Logging => some (string l.level)) hsame
  · have hsame : s.logging = s'.logging :=
      Except.ok.inj ((hlogging v hv).symm.trans (hlogging' v hv'))
    exact congrArg (fun l : Logging => some (string l.format)) hsame

/-- In a table a bound field is what stands under its key. -/
theorem at?_toTree_of_ofTree? {b : Environment.Binding} (hb : b ∈ Environment.bindings)
    (h : members.Pairwise (·.1 < ·.1)) (hread : ofTree? (table members) = some s)
    (hsection : members.lookup b.sectionKey = some (table fields))
    (hfields : fields.Pairwise (·.1 < ·.1)) (hw : fields.lookup b.fieldKey = some w) :
    s.toTree.at? b.keys = some w ∨
      ∃ text, w = moment text ∧ s.toTree.at? b.keys = some (string text) := by
  obtain ⟨happroval, hclient, hlogging⟩ := sections_of_ofTree? h hread
  rcases Environment.eq_of_mem_bindings hb with rfl | rfl | rfl | rfl
  · obtain rfl := Approval.eq_of_decoder hfields (happroval _ hsection) hw
    exact .inl rfl
  · obtain rfl := Client.eq_of_decoder hfields (hclient _ hsection) hw
    exact .inl rfl
  · rcases (Logging.eq_of_decoder hfields (hlogging _ hsection)).1 w hw with rfl | rfl
    · exact .inl rfl
    · exact .inr ⟨s.logging.level, rfl, rfl⟩
  · rcases (Logging.eq_of_decoder hfields (hlogging _ hsection)).2 w hw with rfl | rfl
    · exact .inl rfl
    · exact .inr ⟨s.logging.format, rfl, rfl⟩

theorem known_of_problem?_eq_none (h : s.problem? = none) :
    s.logging.level ∈ levels ∧ s.logging.format ∈ formats := by
  unfold problem? at h
  split at h
  · cases h
  split at h
  · cases h
  split at h
  · cases h
  next hlevel =>
  split at h
  · cases h
  next hformat => exact ⟨not_not.mp hlevel, not_not.mp hformat⟩

/-- No level and no format could be a moment. -/
theorem not_startsWithDigit {b : Environment.Binding} (hb : b ∈ Environment.bindings)
    (hvalid : s.problem? = none) {text : String}
    (htext : s.toTree.at? b.keys = some (string text)) : ¬ Moment.StartsWithDigit text := by
  have hnames : ∀ name ∈ levels ++ formats, (name.toList.head?).all (!·.isDigit) = true := by
    decide
  have hname : text ∈ levels ++ formats := by
    obtain ⟨hlevel, hformat⟩ := known_of_problem?_eq_none hvalid
    rcases Environment.eq_of_mem_bindings hb with rfl | rfl | rfl | rfl
    · cases htext
    · cases htext
    · cases htext
      exact List.mem_append_left _ hlevel
    · cases htext
      exact List.mem_append_right _ hformat
  rintro ⟨c, cs, hcs, hdigit⟩
  have hfirst := hnames text hname
  rw [hcs] at hfirst
  simp [hdigit] at hfirst

/-- In valid settings a bound field is what stands in their tree, as a document may have it. -/
theorem at?_toTree_of_valid {b : Environment.Binding} (hb : b ∈ Environment.bindings)
    (h : v.Ordered) (hread : ofTree? v = some s) (hvalid : s.problem? = none)
    (hsection : v.member? b.sectionKey = some (table fields)) (hw : v.at? b.keys = some w)
    (hmoment : ∀ text, w = moment text → Moment.StartsWithDigit text) :
    s.toTree.at? b.keys = some w := by
  cases v with
  | table members =>
    obtain ⟨hsorted, hmembers⟩ := ordered_table_iff.mp h
    have hfields := (ordered_table_iff.mp (hmembers _ (mem_of_lookup_eq_some hsection))).1
    rw [Environment.Binding.keys, Environment.at?_pair, hsection] at hw
    rcases at?_toTree_of_ofTree? hb hsorted hread hsection hfields hw with
      hgiven | ⟨text, rfl, htext⟩
    · exact hgiven
    · -- a moment that was read as its text would be a level or a format with a digit in front
      exact absurd (hmoment text rfl) (not_startsWithDigit hb hvalid htext)
  | _ => cases hsection

end Settings
end Quorum
