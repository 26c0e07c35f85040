import Quorum.Proofs.Justified
import Quorum.Proofs.RoundTrip
import Quorum.Proofs.Times

/-!
# Which tasks survive their JSON

A vote or a kind that is kept as its text must not have the text of one that is not: of all tasks
that can be held in memory, just those with such votes and kinds are read as they were written. A
task that was decoded is among them (`Task.decoder_yields`), and a vote made in one of them makes
another, so admission judges the very tasks that are read and written (`Task.survives_json`).
-/
namespace Quorum

/-- Whatever a decoder is given, it makes something with the property `P` of it. -/
def Decoder.Yields (d : Decoder α) (P : α → Prop) : Prop := ∀ j a, d.ofJson j = .ok a → P a

/-- The same for the fields of a record, in whatever form the record was given. -/
def Fields.Yields (fs : Fields α) (P : α → Prop) : Prop :=
  ∀ expected position r a, fs.make expected position r = .ok a → P a

theorem Fields.Yields.field {names : List String} {absent : Option α} {last : Bool}
    {d : Decoder α} {P : α → Prop} (hd : d.Yields P) (habsent : ∀ a ∈ absent, P a) :
    (field names absent last d).Yields P := by
  intro expected position r a h
  cases r with
  | named members =>
    simp only [Fields.field] at h
    split at h
    · exact hd _ a (Part.ofJson_eq_ok_iff.mp h)
    · obtain ⟨g, u, -, hcomplaint, -⟩ := Part.seq_eq_ok_iff.mp h
      cases hcomplaint
    · split at h
      · cases h
        exact habsent a rfl
      · cases h
  | positional items =>
    simp only [Fields.field] at h
    split at h
    · exact hd _ a (Part.ofJson_eq_ok_iff.mp h)
    · cases h
      exact habsent a rfl
    · cases h

theorem exists_of_map_eq_ok {f : α → β} {x : Except ε α} {b : β} (h : f <$> x = .ok b) :
    ∃ a, x = .ok a ∧ f a = b := by
  cases x with
  | error e => cases h
  | ok a =>
    cases h
    exact ⟨a, rfl, rfl⟩

namespace Decoder
variable {d : Decoder α} {P : α → Prop}

theorem Yields.record {type : String} {fs : Fields α} (h : fs.Yields P) :
    (record type fs).Yields P := by
  have hrecord (r : Record) (a : α) (ha : ofRecord type fs r = .ok a) : P a := by
    simp only [ofRecord] at ha
    split at ha
    · next a' hmake =>
      cases ha
      obtain ⟨g, u, hg, -, rfl⟩ := Part.seq_eq_ok_iff.mp hmake
      obtain ⟨a, ha, rfl⟩ := Part.map_eq_ok_iff.mp hg
      exact h _ _ r a ha
    · cases ha
  intro j a ha
  cases j with
  | object members => exact hrecord (.named members) a ha
  | array items => exact hrecord (.positional items) a ha
  | _ => cases ha

theorem Yields.option (h : d.Yields P) : d.option.Yields fun o => ∀ a ∈ o, P a := by
  intro j o ho a ha
  obtain rfl : o = some a := ha
  cases j with
  | null => cases ho
  | _ =>
    simp only [Decoder.option] at ho
    obtain ⟨a', ha', heq⟩ := exists_of_map_eq_ok ho
    cases heq
    exact h _ a ha'

theorem mem_of_mapM_eq_ok {f : β → Except ε α} {js : List β} {as : List α}
    (h : js.mapM f = .ok as) {a : α} (ha : a ∈ as) : ∃ j ∈ js, f j = .ok a := by
  induction js generalizing as with
  | nil =>
    cases h
    cases ha
  | cons j js ih =>
    simp only [List.mapM_cons, bind_eq_ok_iff] at h
    obtain ⟨b, hb, bs, hbs, heq⟩ := h
    cases heq
    rcases List.mem_cons.mp ha with rfl | ha
    · exact ⟨j, List.mem_cons_self, hb⟩
    · obtain ⟨j', hj', hread⟩ := ih hbs ha
      exact ⟨j', List.mem_cons_of_mem j hj', hread⟩

theorem Yields.list (h : d.Yields P) : d.list.Yields fun as => ∀ a ∈ as, P a := by
  intro j as has a ha
  cases j with
  | array js =>
    obtain ⟨j, -, hj⟩ := mem_of_mapM_eq_ok has ha
    exact h j a hj
  | _ => cases has

theorem Yields.map {f : α → β} {Q : β → Prop} (h : d.Yields fun a => Q (f a)) :
    (d.map f).Yields Q := by
  intro j b hb
  obtain ⟨a, ha, rfl⟩ := exists_of_map_eq_ok hb
  exact h j a ha

theorem integer_yields (low high : Int) (type : String) :
    (integer low high type).Yields fun n => low ≤ n ∧ n ≤ high := by
  intro j n h
  cases j with
  | int m =>
    change (if low ≤ m ∧ m ≤ high then Except.ok m else _) = _ at h
    split at h
    · next hin =>
      cases h
      exact hin
    · cases h
  | _ => cases h

theorem int64_yields : int64.Yields fun n => Bounds.inInt64 n = true := by
  intro j n h
  have hin := integer_yields _ _ _ j n h
  simpa [Bounds.inInt64] using hin

theorem nat64_yields : nat64.Yields fun n => n ≤ Bounds.nat64Max := by
  refine .map ?_
  intro j n h
  have hin := integer_yields _ _ _ j n h
  omega

theorem parsed_yields {expected : String} {parse : String → Except String α} {P : α → Prop}
    (h : ∀ s a, parse s = .ok a → P a) : (parsed expected parse).Yields P := by
  intro j a ha
  cases j with
  | string s =>
    exact h s a (mapError_eq_ok_iff.mp ha)
  | _ => cases ha

end Decoder

namespace Vote

/-- Not kept as the text of another vote. Decoding yields no others, so this is what a vote in
memory needs in order to survive encoding. -/
def Canonical : Vote → Prop
  | other s => s ≠ "pending" ∧ s ≠ "approve" ∧ s ≠ "reject"
  | pending | approve | reject => True

theorem legible_iff_canonical {v : Vote} : v.Legible ↔ v.Canonical := by
  cases v with
  | other s =>
    change ofText s = other s ↔ s ≠ "pending" ∧ s ≠ "approve" ∧ s ≠ "reject"
    unfold ofText
    by_cases hpending : s = "pending"
    · simp [hpending]
    by_cases happrove : s = "approve"
    · simp [happrove]
    by_cases hreject : s = "reject"
    · simp [hreject]
    · simp [hpending, happrove, hreject]
  | _ => simp [Legible, Canonical, text, ofText]

theorem decoder_yields : decoder.Yields Legible := .map fun _ s _ => legible_ofText s

end Vote

namespace Approver.Kind

/-- Not kept as the text of another kind, nor as no text at all. -/
def Canonical : Kind → Prop
  | other s => s ≠ "User" ∧ s ≠ "Group" ∧ s ≠ ""
  | user | group => True

theorem legible_iff_canonical {k : Kind} : k.Legible ↔ k.Canonical := by
  cases k with
  | other s =>
    change ofText s = other s ↔ s ≠ "User" ∧ s ≠ "Group" ∧ s ≠ ""
    unfold ofText
    by_cases huser : s = "User" ∨ s = ""
    · rw [if_pos huser]
      rcases huser with rfl | rfl <;> simp
    rw [if_neg huser]
    by_cases hgroup : s = "Group"
    · simp [hgroup]
    · simp [hgroup, not_or.mp huser]
  | _ => simp [Legible, Canonical, text, ofText]

theorem legible_ofText (s : String) : (ofText s).Legible := by
  rw [legible_iff_canonical]
  unfold ofText
  split
  · trivial
  · next huser =>
    split
    · trivial
    · next hgroup => exact ⟨(not_or.mp huser).1, hgroup, (not_or.mp huser).2⟩

theorem decoder_yields : decoder.Yields Legible := .map fun _ s _ => legible_ofText s

end Approver.Kind

theorem Instant.legible_iff_valid {t : Instant} : t.Legible ↔ t.Valid :=
  ⟨valid_of_parse, parse_text⟩

theorem Instant.decoder_yields : decoder.Yields Legible := by
  refine Decoder.parsed_yields fun s t h => ?_
  exact legible_iff_valid.mpr (valid_of_parse (mapError_eq_ok_iff.mp h))

/-- An approver in which neither the kind nor any vote is kept as a text of another one. Names and
messages are free. -/
structure Approver.Canonical (a : Approver) : Prop where
  kind : a.kind.Canonical
  vote : a.vote.Canonical
  members : ∀ m ∈ a.members, m.vote.Canonical

/-- No vote and no kind is kept as a text that means another. -/
structure Task.Canonical (t : Task) : Prop where
  approvers : ∀ a ∈ t.spec.approvers, a.Canonical
  responses : ∀ r ∈ t.status.responses, r.kind.Canonical

/-- Numbers fit the width they are kept in, and times exist. -/
structure Task.Representable (t : Task) : Prop where
  version : t.metadata.version ≤ Bounds.nat64Max
  created : ∀ u ∈ t.metadata.created, u.Valid
  required : Bounds.inInt64 t.spec.required = true
  statusRequired : Bounds.inInt64 t.status.required = true
  received : Bounds.inInt64 t.status.received = true
  startTime : ∀ u ∈ t.status.startTime, u.Valid

theorem Approver.legible_iff_canonical {a : Approver} : a.Legible ↔ a.Canonical := by
  constructor
  · intro h
    exact ⟨Kind.legible_iff_canonical.mp h.kind, Vote.legible_iff_canonical.mp h.vote,
      fun m hm => Vote.legible_iff_canonical.mp (h.members m hm)⟩
  · intro h
    exact ⟨Kind.legible_iff_canonical.mpr h.kind, Vote.legible_iff_canonical.mpr h.vote,
      fun m hm => Vote.legible_iff_canonical.mpr (h.members m hm)⟩

theorem Task.legible_iff {t : Task} : t.Legible ↔ t.Representable ∧ t.Canonical := by
  constructor
  · intro h
    constructor
    · exact ⟨h.version, fun u hu => Instant.legible_iff_valid.mp (h.created u hu), h.required,
        h.status.required, h.status.received,
        fun u hu => Instant.legible_iff_valid.mp (h.status.startTime u hu)⟩
    · exact ⟨fun a ha => Approver.legible_iff_canonical.mp (h.spec a ha),
        fun r hr => Approver.Kind.legible_iff_canonical.mp (h.status.responses r hr)⟩
  · rintro ⟨h, hcanonical⟩
    refine ⟨h.version, fun u hu => Instant.legible_iff_valid.mpr (h.created u hu), h.required,
      fun a ha => Approver.legible_iff_canonical.mpr (hcanonical.approvers a ha),
      h.statusRequired, h.received, ?_, ?_⟩
    · exact fun r hr => Approver.Kind.legible_iff_canonical.mpr (hcanonical.responses r hr)
    · exact fun u hu => Instant.legible_iff_valid.mpr (h.startTime u hu)

open Fields

section
variable {names : List String} {name expected : String} {position : Nat} {r : Record}
  {d : Decoder α} {P : α → Prop}

theorem of_withDefault {fallback a : α}
    (h : (withDefault names fallback d).make expected position r = .ok a) (hd : d.Yields P)
    (hfallback : P fallback) : P a :=
  Fields.Yields.field hd (fun _ ha => Option.some.inj ha ▸ hfallback) _ _ _ a h

theorem of_listField {as : List α}
    (h : (withDefault names [] d.list).make expected position r = .ok as) (hd : d.Yields P) :
    ∀ a ∈ as, P a :=
  of_withDefault h hd.list fun _ ha => absurd ha List.not_mem_nil

theorem of_optional {o : Option α} (h : (optional name d).make expected position r = .ok o)
    (hd : d.Yields P) : ∀ a ∈ o, P a :=
  of_withDefault h hd.option fun _ ha => absurd ha (Option.not_mem_none _)

end

theorem Member.decoder_yields : decoder.Yields fun m => m.vote.Legible := by
  refine .record ?_
  intro expected position r m h
  simp only [Fields.seq_eq_ok_iff, Fields.map_eq_ok_iff] at h
  obtain ⟨_, vote, ⟨name, -, rfl⟩, hvote, rfl⟩ := h
  exact of_withDefault hvote Vote.decoder_yields rfl

theorem Approver.decoder_yields : decoder.Yields Legible := by
  refine .record ?_
  intro expected position r a h
  simp only [Fields.seq_eq_ok_iff, Fields.map_eq_ok_iff] at h
  obtain ⟨_, members, ⟨_, message, ⟨_, vote, ⟨_, kind, ⟨name, -, rfl⟩, hkind, rfl⟩, hvote, rfl⟩, -,
    rfl⟩, hmembers, rfl⟩ := h
  exact ⟨of_withDefault hkind Kind.decoder_yields rfl,
    of_withDefault hvote Vote.decoder_yields rfl,
    of_listField hmembers Member.decoder_yields⟩

theorem Spec.decoder_yields :
    decoder.Yields fun s => s.Legible ∧ Bounds.inInt64 s.required = true := by
  refine .record ?_
  intro expected position r s h
  simp only [Fields.seq_eq_ok_iff, Fields.map_eq_ok_iff] at h
  obtain ⟨_, description, ⟨_, required, ⟨approvers, happrovers, rfl⟩, hrequired, rfl⟩, -, rfl⟩ := h
  have hfits := of_withDefault hrequired Decoder.int64_yields rfl
  exact ⟨of_listField happrovers Approver.decoder_yields, hfits⟩

theorem Response.decoder_yields : decoder.Yields fun r => r.kind.Legible := by
  refine .record ?_
  intro expected position r a h
  simp only [Fields.seq_eq_ok_iff, Fields.map_eq_ok_iff] at h
  obtain ⟨_, members, ⟨_, message, ⟨_, response, ⟨_, kind, ⟨name, -, rfl⟩, hkind, rfl⟩, -, rfl⟩, -,
    rfl⟩, -, rfl⟩ := h
  exact of_withDefault hkind Approver.Kind.decoder_yields rfl

theorem Status.decoder_yields : decoder.Yields Legible := by
  refine .record ?_
  intro expected position r s h
  simp only [Fields.seq_eq_ok_iff, Fields.map_eq_ok_iff] at h
  obtain ⟨_, reason, ⟨_, start, ⟨_, received, ⟨_, required, ⟨_, responses, ⟨_, approvers,
    ⟨state, -, rfl⟩, -, rfl⟩, hresponses, rfl⟩, hrequired, rfl⟩, hreceived, rfl⟩, hstart, rfl⟩, -,
    rfl⟩ := h
  have hfits := of_withDefault hrequired Decoder.int64_yields rfl
  have hfits' := of_withDefault hreceived Decoder.int64_yields rfl
  exact ⟨hfits, hfits', of_listField hresponses Response.decoder_yields,
    of_optional hstart Instant.decoder_yields⟩

theorem Metadata.decoder_yields :
    decoder.Yields fun m => m.version ≤ Bounds.nat64Max ∧ ∀ t ∈ m.created, t.Legible := by
  refine .record ?_
  intro expected position r m h
  simp only [Fields.seq_eq_ok_iff, Fields.map_eq_ok_iff] at h
  obtain ⟨_, created, ⟨_, annotations, ⟨_, labels, ⟨_, version, ⟨_, space, ⟨name, -, rfl⟩, -, rfl⟩,
    hversion, rfl⟩, -, rfl⟩, -, rfl⟩, hcreated, rfl⟩ := h
  have hfits := of_withDefault hversion Decoder.nat64_yields (Nat.zero_le _)
  exact ⟨hfits, of_optional hcreated Instant.decoder_yields⟩

theorem Task.decoder_yields : decoder.Yields Legible := by
  refine .record ?_
  intro expected position r t h
  simp only [Fields.seq_eq_ok_iff, Fields.map_eq_ok_iff] at h
  obtain ⟨_, status, ⟨_, spec, ⟨metadata, hmetadata, rfl⟩, hspec, rfl⟩, hstatus, rfl⟩ := h
  have hempty : Task.Legible {} := by
    refine ⟨Nat.zero_le _, by simp, rfl, ?_, ?_⟩
    · simp [Spec.Legible]
    · exact ⟨rfl, rfl, by simp, by simp⟩
  have hversion := of_withDefault hmetadata Metadata.decoder_yields
    ⟨hempty.version, hempty.created⟩
  have hlegible := of_withDefault hspec Spec.decoder_yields ⟨hempty.spec, hempty.required⟩
  have hrecorded := of_withDefault hstatus Status.decoder_yields hempty.status
  exact ⟨hversion.1, hversion.2, hlegible.2, hlegible.1, hrecorded⟩

/-- What admission has to say of an edit when it looks at the tasks themselves. -/
def Admission.judge (p : Principal) (new old : Task) : Except Refusal Unit := do
  new.spec.validate.mapError .invalid
  match authorize old new.spec p with
  | .allow => return ()
  | .deny d => throw (.denied d)

theorem Admission.review_update {p : Principal} {new old : Task} (hnew : new.Legible)
    (hold : old.Legible) : review (.update p new old) = judge p new old := by
  have hnew' : Task.decoder.ofJson (Request.update p new old).object = .ok new :=
    Task.ofJson_toJson hnew
  have hold' : Task.decoder.ofJson ((Request.update p new old).oldObject.getD .null) = .ok old :=
    Task.ofJson_toJson hold
  unfold review judge
  rw [hnew', hold']
  rfl

namespace Ballot
variable {b : Ballot} {a : Approver}

theorem canonical_inUserEntry (hvote : b.vote.Canonical) (h : a.Canonical) :
    (b.inUserEntry a).Canonical :=
  ⟨h.kind, hvote, h.members⟩

theorem canonical_inGroup (hvote : b.vote.Canonical) (h : a.Canonical) :
    (b.inGroup a).Canonical := by
  refine ⟨h.kind, hvote, fun m hm => ?_⟩
  simp only [inGroup] at hm
  split at hm
  · next ms hms =>
    rcases mem_of_modifyFirst? hms hm with hm | ⟨x, -, -, rfl⟩
    · exact h.members m hm
    · exact hvote
  · rcases List.mem_append.mp hm with hm | hm
    · exact h.members m hm
    · obtain rfl := List.mem_singleton.mp hm
      exact hvote

theorem canonical_edit? {old new : Spec} (h : b.edit? old = some new) (hvote : b.vote.Canonical)
    (hold : ∀ a ∈ old.approvers, a.Canonical) : ∀ a ∈ new.approvers, a.Canonical := by
  intro n hn
  rcases mem_of_edit? h hn with hkept | ⟨o, ho, ⟨-, rfl⟩ | ⟨-, rfl⟩⟩
  · exact hold n hkept
  · exact canonical_inUserEntry hvote (hold o ho)
  · exact canonical_inGroup hvote (hold o ho)

/-- A vote that has text of its own is judged as it will be written. -/
theorem propose_eq_judge {s : Store} {t : Task} {spec : Spec} (hread : s.get? b.key = some t)
    (hrepresentable : t.Representable) (hcanonical : t.Canonical) (hvote : b.vote.Canonical)
    (hedit : b.edit? t.spec = some spec) :
    b.propose s =
      ((Admission.judge b.principal { t with spec } t).mapError .denied).map
        fun _ => { t with spec } := by
  have hrequired : spec.required = t.spec.required := by
    obtain ⟨as, -, rfl⟩ := Option.map_eq_some_iff.mp hedit
    rfl
  have hold : t.Legible := Task.legible_iff.mpr ⟨hrepresentable, hcanonical⟩
  have hnew : ({ t with spec } : Task).Legible := by
    refine Task.legible_iff.mpr ⟨⟨hrepresentable.version, hrepresentable.created, ?_,
      hrepresentable.statusRequired, hrepresentable.received, hrepresentable.startTime⟩,
      canonical_edit? hedit hvote hcanonical.approvers, hcanonical.responses⟩
    rw [hrequired]
    exact hrepresentable.required
  unfold propose
  rw [Store.get_eq_ok_iff.mpr hread]
  simp only [Except.mapError, Except.bind, bind]
  rw [hedit]
  simp only [Admission.review_update hnew hold]
  cases Admission.judge b.principal { t with spec } t with
  | error e => rfl
  | ok _ => rfl

end Ballot

/-- Reading what was written of a task gives the task again, and with it the same JSON: for every
task that was decoded from any JSON, and for exactly those tasks in memory whose votes and kinds are
canonical. A vote on such a task is judged by the task that was read and the one to be written. -/
theorem Task.survives_json :
    (∀ j t, decoder.ofJson j = .ok t → decoder.ofJson t.toJson = .ok t ∧
      ∀ u, decoder.ofJson t.toJson = .ok u → u.toJson = t.toJson) ∧
    (∀ t : Task, t.Representable → (decoder.ofJson t.toJson = .ok t ↔ t.Canonical)) ∧
    (∀ (b : Ballot) s t spec, s.get? b.key = some t → t.Representable → t.Canonical →
      b.vote.Canonical → b.edit? t.spec = some spec →
      b.propose s = ((Admission.judge b.principal { t with spec } t).mapError .denied).map
        fun _ => { t with spec }) := by
  refine ⟨fun j t hdecodes => ?_, fun t hrepresentable => ?_, ?_⟩
  · have hback : decoder.ofJson t.toJson = .ok t := ofJson_toJson (decoder_yields j t hdecodes)
    refine ⟨hback, fun u hu => ?_⟩
    rw [hback] at hu
    cases hu
    rfl
  · constructor
    · intro hback
      exact (legible_iff.mp (decoder_yields _ t hback)).2
    · intro hcanonical
      exact ofJson_toJson (legible_iff.mpr ⟨hrepresentable, hcanonical⟩)
  · intro b s t spec hread hrepresentable hcanonical hvote hedit
    exact Ballot.propose_eq_judge hread hrepresentable hcanonical hvote hedit

namespace Task

/-- A task as an older writer has it: members under their other name, one of them as a list, a kind
left blank, a kind that is not supported, and a time of another zone. -/
def foreignJson : Json :=
  .object
    [("metadata", .object
        [("name", .string "gate"), ("resourceVersion", .int 1),
          ("creationTimestamp", .string "2016-12-31t18:59:60.25-05:00")]),
      ("spec", .object
        [("approvers", .array
            [.object [("name", .string "ann"), ("type", .string "")],
              .object [("name", .string "team"), ("type", .string "Group"),
                ("members", .array [.array [.string "bob", .string "later"]])]]),
          ("numberOfApprovalsRequired", .int 1)]),
      ("status", .object
        [("approversResponse", .array
            [.object [("name", .string "ci"), ("type", .string "Robot"),
              ("response", .string "Pending")]])])]

def foreign : Task where
  metadata := { name := "gate", version := 1, created := some ⟨1483228799, 1250000000⟩ }
  spec :=
    { approvers :=
        [{ name := "ann" },
          { name := "team", kind := .group, members := [⟨"bob", .other "later"⟩] }]
      required := 1 }
  status := { responses := [{ name := "ci", kind := .other "Robot", response := .pending }] }

/-- The vote of a member whose record holds a text of their own. -/
def foreignVote : Ballot := ⟨"gate", ⟨"bob", ["team"]⟩, .approve, none⟩

def foreignVoted : Task :=
  { foreign with spec.approvers :=
      [{ name := "ann" },
        { name := "team", kind := .group, vote := .approve, members := [⟨"bob", .approve⟩] }] }

theorem foreign_survives :
    decoder.ofJson foreignJson = .ok foreign ∧ decoder.ofJson foreign.toJson = .ok foreign ∧
    foreign.Canonical ∧ foreignVote.propose (Store.empty.put foreign) = .ok foreignVoted := by
  have hdecodes : decoder.ofJson foreignJson = .ok foreign := by
    decide
  have hback := (survives_json.1 _ _ hdecodes).1
  have hrepresentable := (legible_iff.mp (decoder_yields _ _ hdecodes)).1
  have hcanonical := (survives_json.2.1 _ hrepresentable).mp hback
  have hread : (Store.empty.put foreign).get? "gate" = some foreign := rfl
  have hpropose := survives_json.2.2 foreignVote (Store.empty.put foreign) foreign foreignVoted.spec
    hread hrepresentable hcanonical trivial rfl
  have hvalid : foreignVoted.spec.validate = .ok () :=
    Spec.validate_eq_ok_iff.mpr (Spec.problems_eq_nil_iff.mp (by decide))
  have hchanges : foreign.spec.changesTo foreignVoted.spec =
      [.vote ⟨.group, "team"⟩ .approve, .memberVote "team" "bob" .approve] := by cbv
  have hauthorized : authorize foreign foreignVoted.spec ⟨"bob", ["team"]⟩ = .allow := by
    refine Guard.authorize_eq_allow_iff.mpr
      (Guard.cleared_of_vote (.group "team") .approve hchanges ?_ ?_ ?_ ?_ ?_ ?_ ?_ ?_) <;>
      decide
  have hjudge : Admission.judge ⟨"bob", ["team"]⟩ foreignVoted foreign = .ok () := by
    rw [Admission.judge, hvalid, hauthorized]
    rfl
  refine ⟨hdecodes, hback, hcanonical, hpropose.trans ?_⟩
  change ((Admission.judge ⟨"bob", ["team"]⟩ foreignVoted foreign).mapError _).map _ = _
  rw [hjudge]
  rfl

end Task
end Quorum
