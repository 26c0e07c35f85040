import Quorum.Proofs.HexDigits
import Quorum.Proofs.Undecided

/-!
# Digests on record

A text is read as a digest if it is made of 64 digits of either case, and of nothing else
(`Digest.exists_ofHex_iff`); what is written of that digest is the text in lower case
(`Digest.hex_of_ofHex`). The annotations of a task survive its JSON whatever its votes and kinds
are, for these are always read as something (`Task.decodes_as_reread`), and so does the digest among
them (`Digest.stored_reads_back`).
-/
namespace Quorum

namespace Text.Hex

/-- One of the ten digits, or of the first six letters in lower or upper case. -/
def IsDigit (c : Char) : Prop :=
  ('0' ≤ c ∧ c ≤ '9') ∨ ('a' ≤ c ∧ c ≤ 'f') ∨ ('A' ≤ c ∧ c ≤ 'F')

instance (c : Char) : Decidable (IsDigit c) := inferInstanceAs (Decidable (_ ∨ _))

theorem isDigit_iff_toNat {c : Char} :
    IsDigit c ↔ (48 ≤ c.toNat ∧ c.toNat ≤ 57) ∨ (97 ≤ c.toNat ∧ c.toNat ≤ 102) ∨
      (65 ≤ c.toNat ∧ c.toNat ≤ 70) := Iff.rfl

theorem isSome_value?_iff {c : Char} : (value? c).isSome ↔ IsDigit c := by
  rw [isDigit_iff_toNat]
  simp only [value?]
  split
  · simp [*]
  split
  · simp [*]
  split <;> simp [*]

theorem IsDigit.lt {c : Char} (h : IsDigit c) : c.toNat < 128 := by
  rw [isDigit_iff_toNat] at h
  omega

/-- What is written of a digit is its lower case. -/
theorem digit_of_value? {c : Char} {n : Nat} (h : value? c = some n) :
    n < 16 ∧ digit n = c.toLower := by
  have hbelow : ∀ m < 128, ∀ n ∈ value? (Char.ofNat m),
      n < 16 ∧ digit n = (Char.ofNat m).toLower := by
    decide
  have hdigit : IsDigit c := isSome_value?_iff.mp (Option.isSome_of_eq_some h)
  have hvalue := hbelow c.toNat hdigit.lt n
  rw [Char.ofNat_toNat] at hvalue
  exact hvalue h

theorem octet_of_values {x y : Nat} (hx : x < 16) (hy : y < 16) :
    octet (UInt8.ofNat (16 * x + y)) = [digit x, digit y] := by
  have hvalue : (UInt8.ofNat (16 * x + y)).toNat = 16 * x + y := by
    rw [UInt8.toNat_ofNat', Nat.mod_eq_of_lt (by omega)]
  rw [octet, hvalue, show (16 * x + y) / 16 = x by omega, show (16 * x + y) % 16 = y by omega]

end Text.Hex

namespace Digest
open Text.Hex

theorem utf8EncodeChar_of_lt {c : Char} (h : c.toNat < 128) :
    String.utf8EncodeChar c = [UInt8.ofNat c.toNat] := by
  have hval : c.val.toNat ≤ 0x7f := by
    change c.toNat ≤ 127
    omega
  simp only [String.utf8EncodeChar, if_pos hval]
  rfl

/-- Beyond the first 128 characters the first octet is none of a digit. -/
theorem exists_no_digit {c : Char} (h : 128 ≤ c.toNat) :
    ∃ b ∈ String.utf8EncodeChar c, readPairs.digit? b = none := by
  have hnone : ∀ n < 256, 128 ≤ n → readPairs.digit? (UInt8.ofNat n) = none := by
    decide +kernel
  have hhigh (b : UInt8) (hb : 128 ≤ b.toNat) : readPairs.digit? b = none := by
    have hb' := hnone b.toNat b.toNat_lt hb
    rwa [UInt8.ofNat_toNat] at hb'
  have hval : ¬c.val.toNat ≤ 0x7f := by
    change ¬c.toNat ≤ 127
    omega
  have hmax : c.val.toNat < 0x110000 := by
    rcases c.valid with hlow | ⟨-, hhigh⟩
    · exact Nat.lt_trans hlow (by decide)
    · exact hhigh
  simp only [String.utf8EncodeChar, if_neg hval]
  split
  · refine ⟨_, List.mem_cons_self, hhigh _ ?_⟩
    simp
    omega
  split
  · refine ⟨_, List.mem_cons_self, hhigh _ ?_⟩
    simp
    omega
  · refine ⟨_, List.mem_cons_self, hhigh _ ?_⟩
    simp
    omega

theorem digit?_ofNat {c : Char} (h : c.toNat < 128) :
    readPairs.digit? (UInt8.ofNat c.toNat) = value? c := by
  rw [readPairs.digit?, UInt8.toNat_ofNat', Nat.mod_eq_of_lt (by omega), Char.ofNat_toNat]

theorem digits_of_char_iff {c : Char} :
    (∀ b ∈ String.utf8EncodeChar c, (readPairs.digit? b).isSome) ↔ IsDigit c := by
  by_cases hc : c.toNat < 128
  · simp [utf8EncodeChar_of_lt hc, digit?_ofNat hc, isSome_value?_iff]
  · obtain ⟨b, hb, hnone⟩ := exists_no_digit (Nat.le_of_not_lt hc)
    constructor
    · intro h
      have hsome := h b hb
      rw [hnone] at hsome
      cases hsome
    · intro h
      exact absurd h.lt hc

theorem octets_eq_flatMap (s : String) :
    s.toUTF8.toList = s.toList.flatMap String.utf8EncodeChar := by
  rw [← toList_toUTF8_ofList, String.ofList_toList]

theorem digits_of_text_iff {s : String} :
    (∀ b ∈ s.toUTF8.toList, (readPairs.digit? b).isSome) ↔ ∀ c ∈ s.toList, IsDigit c := by
  simp only [octets_eq_flatMap, List.mem_flatMap, ← digits_of_char_iff]
  grind

/-- Digits are one octet each, so lengths in octets and in characters agree for them. -/
theorem octets_of_digits {s : String} (h : ∀ c ∈ s.toList, IsDigit c) :
    s.toUTF8.toList = s.toList.map fun c => UInt8.ofNat c.toNat := by
  rw [octets_eq_flatMap, List.map_eq_flatMap]
  exact List.flatMap_congr fun c hc => utf8EncodeChar_of_lt (h c hc).lt

theorem exists_readPairs {position : Nat} {bs : List UInt8}
    (h : ∀ b ∈ bs, (readPairs.digit? b).isSome) : ∃ out, readPairs position bs = .ok out := by
  fun_induction readPairs position bs with
  | case1 position a b rest hnone =>
    have hsome := h a List.mem_cons_self
    rw [hnone] at hsome
    cases hsome
  | case2 position a b rest x hnone =>
    have hsome := h b (by simp)
    rw [hnone] at hsome
    cases hsome
  | case3 position a b rest x y hy hx ih =>
    obtain ⟨out, hout⟩ := ih fun c hc => h c (by simp [hc])
    exact ⟨UInt8.ofNat (16 * x + y) :: out, by rw [hout]; rfl⟩
  | case4 => exact ⟨[], rfl⟩

/-- Octets that are read are digits, and what is read is written as these in lower case. -/
theorem of_readPairs {position : Nat} {bs out : List UInt8} (heven : bs.length % 2 = 0)
    (h : readPairs position bs = .ok out) :
    (∀ b ∈ bs, (readPairs.digit? b).isSome) ∧
      out.flatMap octet = bs.map fun b => (Char.ofNat b.toNat).toLower := by
  fun_induction readPairs position bs generalizing out with
  | case1 => cases h
  | case2 => cases h
  | case3 position a b rest x y hy hx ih =>
    obtain ⟨out, hout, rfl⟩ := exists_of_map_eq_ok h
    have hrest : rest.length % 2 = 0 := by
      simp only [List.length_cons] at heven
      omega
    obtain ⟨hdigits, hwritten⟩ := ih hrest hout
    obtain ⟨hx16, hxlower⟩ := digit_of_value? hx
    obtain ⟨hy16, hylower⟩ := digit_of_value? hy
    constructor
    · simp only [List.forall_mem_cons, hx, hy, Option.isSome_some, true_and]
      exact hdigits
    · rw [List.flatMap_cons, octet_of_values hx16 hy16, hwritten, hxlower, hylower]
      rfl
  | case4 bs position hne =>
    cases h
    rcases bs with _ | ⟨a, _ | ⟨b, rest⟩⟩
    · simp
    · simp at heven
    · exact absurd rfl (hne a b rest)

theorem ofHex_eq_ok_iff {s : String} {d : Digest} :
    ofHex s = .ok d ↔
      s.toUTF8.toList.length = 64 ∧ readPairs 0 s.toUTF8.toList = .ok d.octets := by
  unfold ofHex
  by_cases hlength : s.toUTF8.toList.length = 64
  · simp only [hlength]
    rw [if_neg (by decide), dif_neg (by decide)]
    split
    · next out h =>
      constructor
      · intro hd
        cases hd
        exact ⟨trivial, h⟩
      · rintro ⟨-, hread⟩
        obtain rfl : out = d.octets := Except.ok.inj (h.symm.trans hread)
        rfl
    · next e h =>
      constructor
      · intro hd
        cases hd
      · rintro ⟨-, hread⟩
        cases h.symm.trans hread
  · simp only [hlength, false_and, iff_false]
    split
    · simp
    · simp

theorem exists_ofHex_iff {s : String} :
    (∃ d, ofHex s = .ok d) ↔ s.toList.length = 64 ∧ ∀ c ∈ s.toList, IsDigit c := by
  constructor
  · rintro ⟨d, hd⟩
    obtain ⟨hlength, hread⟩ := ofHex_eq_ok_iff.mp hd
    have hdigits := digits_of_text_iff.mp (of_readPairs (by rw [hlength]) hread).1
    rw [octets_of_digits hdigits, List.length_map] at hlength
    exact ⟨hlength, hdigits⟩
  · rintro ⟨hlength, hdigits⟩
    obtain ⟨out, hout⟩ : ∃ out, readPairs 0 s.toUTF8.toList = .ok out :=
      exists_readPairs (digits_of_text_iff.mpr hdigits)
    have hoctets : s.toUTF8.toList.length = 64 := by
      rw [octets_of_digits hdigits, List.length_map, hlength]
    have hout32 : out.length = 32 := by rw [length_readPairs hout, hoctets]
    exact ⟨⟨out, hout32⟩, ofHex_eq_ok_iff.mpr ⟨hoctets, hout⟩⟩

theorem hex_of_ofHex {s : String} {d : Digest} (h : ofHex s = .ok d) : d.hex = s.toLower := by
  obtain ⟨hlength, hread⟩ := ofHex_eq_ok_iff.mp h
  obtain ⟨hdigits, hwritten⟩ := of_readPairs (by rw [hlength]) hread
  have hdigits := digits_of_text_iff.mp hdigits
  have hlower : (s.toUTF8.toList.map fun b => (Char.ofNat b.toNat).toLower) =
      s.toList.map Char.toLower := by
    rw [octets_of_digits hdigits, List.map_map]
    refine List.map_congr_left fun c hc => ?_
    have hlt := (hdigits c hc).lt
    rw [Function.comp_apply, UInt8.toNat_ofNat', Nat.mod_eq_of_lt (by omega), Char.ofNat_toNat]
  rw [hex, write, hwritten, hlower, ← String.toList_map, String.ofList_toList]
  rfl

end Digest

open Json Fields

def Response.reread (r : Response) : Response := { r with kind := .ofText r.kind.text }

def Status.reread (s : Status) : Status := { s with responses := s.responses.map Response.reread }

/-- The task `t` with the votes and kinds that their texts stand for. -/
def Task.reread (t : Task) : Task := { t with spec := t.spec.reread, status := t.status.reread }

theorem Spec.decodes_as_reread {s : Spec} (hrequired : Bounds.inInt64 s.required = true) :
    Spec.decoder.ofJson s.toJson = .ok s.reread := by
  have happrovers : (Decoder.list Approver.decoder).ofJson (ofList Approver.toJson s.approvers) =
      .ok (s.approvers.map Approver.reread) :=
    Decoder.mapM_map_eq_ok fun a _ => a.decodes_as_reread
  simp only [decoder, toJson, ofFields_eq, Decoder.record_eq_ok_iff, Fields.seq_eq_ok_iff,
    Fields.map_eq_ok_iff]
  refine ⟨_, s.description, ⟨_, s.required, ⟨s.approvers.map Approver.reread, ?_, rfl⟩, ?_, rfl⟩,
    ?_, rfl⟩
  · exact make_of_field _ (by simp) happrovers
  · exact make_of_field (.int s.required) (by simp) (Decoder.int64_ofJson hrequired)
  · exact make_of_fieldSome .string (by simp) (by simp) fun _ _ => rfl

theorem Response.decodes_as_reread (r : Response) :
    Response.decoder.ofJson r.toJson = .ok r.reread := by
  simp only [decoder, toJson, ofFields_eq, Decoder.record_eq_ok_iff, Fields.seq_eq_ok_iff,
    Fields.map_eq_ok_iff]
  refine ⟨_, r.members, ⟨_, r.message, ⟨_, r.response, ⟨_, .ofText r.kind.text,
    ⟨r.name, ?_, rfl⟩, ?_, rfl⟩, ?_, rfl⟩, ?_, rfl⟩, ?_, rfl⟩
  · exact make_of_field (.string r.name) (by simp) rfl
  · exact make_of_field r.kind.toJson (by simp) rfl
  · exact make_of_field r.response.toJson (by simp) (Outcome.ofJson_toJson _)
  · exact make_of_fieldSome .string (by simp) (by simp) fun _ _ => rfl
  · exact make_of_list MemberResponse.toJson (by simp) fun m _ => m.ofJson_toJson

theorem Status.decodes_as_reread {s : Status} (hrequired : Bounds.inInt64 s.required = true)
    (hreceived : Bounds.inInt64 s.received = true) (hstart : ∀ u ∈ s.startTime, u.Valid) :
    Status.decoder.ofJson s.toJson = .ok s.reread := by
  have hresponses : (Decoder.list Response.decoder).ofJson (ofList Response.toJson s.responses) =
      .ok (s.responses.map Response.reread) :=
    Decoder.mapM_map_eq_ok fun r _ => r.decodes_as_reread
  simp only [decoder, toJson, ofFields_eq, Decoder.record_eq_ok_iff, Fields.seq_eq_ok_iff,
    Fields.map_eq_ok_iff]
  refine ⟨_, s.reason, ⟨_, s.startTime, ⟨_, s.received, ⟨_, s.required,
    ⟨_, s.responses.map Response.reread, ⟨_, s.approvers, ⟨s.state, ?_, rfl⟩, ?_, rfl⟩, ?_, rfl⟩,
    ?_, rfl⟩, ?_, rfl⟩, ?_, rfl⟩, ?_, rfl⟩
  · exact make_of_field s.state.toJson (by simp) (Outcome.ofJson_toJson _)
  · exact make_of_list .string (by simp) fun _ _ => rfl
  · exact make_of_field _ (by simp) hresponses
  · exact make_of_field (.int s.required) (by simp) (Decoder.int64_ofJson hrequired)
  · exact make_of_field (.int s.received) (by simp) (Decoder.int64_ofJson hreceived)
  · exact make_of_fieldSome Instant.toJson (by simp) (by simp [Instant.toJson])
      fun u hu => Instant.ofJson_toJson (Instant.legible_iff_valid.mpr (hstart u hu))
  · exact make_of_fieldSome .string (by simp) (by simp) fun _ _ => rfl

/-- Whatever texts a task keeps for its votes and kinds, it can be read, and its metadata stand. -/
theorem Task.decodes_as_reread {t : Task} (h : t.Representable) :
    Task.decoder.ofJson t.toJson = .ok t.reread := by
  have hmetadata := Metadata.ofJson_toJson h.version
    fun u hu => Instant.legible_iff_valid.mpr (h.created u hu)
  simp only [decoder, toJson, ofFields_eq, Decoder.record_eq_ok_iff, Fields.seq_eq_ok_iff,
    Fields.map_eq_ok_iff]
  refine ⟨_, t.status.reread, ⟨_, t.spec.reread, ⟨t.metadata, ?_, rfl⟩, ?_, rfl⟩, ?_, rfl⟩
  · exact make_of_field _ (by simp) hmetadata
  · exact make_of_field _ (by simp) (Spec.decodes_as_reread h.required)
  · exact make_of_field _ (by simp)
      (Status.decodes_as_reread h.statusRequired h.received h.startTime)

theorem Task.Representable.withDigest {t : Task} (h : t.Representable) (d : Digest) :
    (t.withDigest d).Representable :=
  ⟨h.version, h.created, h.required, h.statusRequired, h.received, h.startTime⟩

theorem Task.get?_withDigest_of_ne {t : Task} {d : Digest} {key : String} (h : key ≠ digestKey) :
    (t.withDigest d).metadata.annotations.get? key = t.metadata.annotations.get? key := by
  rw [withDigest, SortedMap.get?_insert, if_neg h]

namespace Digest
open Text.Hex

/-- What is written of a digest is read as that digest. A text is read as a digest if and only if it
is 64 hexadecimal digits of either case, and then the digest is written as the text in lower case.
A task that is given a digest, written as JSON and read again has that digest on record, and its
other annotations as they were. -/
theorem stored_reads_back :
    (∀ d : Digest, ofHex d.hex = .ok d) ∧
    (∀ s, ((∃ d, ofHex s = .ok d) ↔ s.toList.length = 64 ∧ ∀ c ∈ s.toList, IsDigit c) ∧
      ∀ d, ofHex s = .ok d → d.hex = s.toLower) ∧
    (∀ (t : Task) (d : Digest), t.Representable →
      ∃ u, Task.decoder.ofJson (t.withDigest d).toJson = .ok u ∧ u.digest? = some d ∧
        ∀ key, key ≠ Task.digestKey →
          u.metadata.annotations.get? key = t.metadata.annotations.get? key) := by
  refine ⟨ofHex_hex, fun s => ⟨exists_ofHex_iff, fun d => hex_of_ofHex⟩, fun t d h => ?_⟩
  refine ⟨(t.withDigest d).reread, Task.decodes_as_reread (h.withDigest d), ?_, ?_⟩
  · exact t.digest?_withDigest d
  · exact fun key hkey => Task.get?_withDigest_of_ne hkey

/-- A task with an annotation of its own, and with a vote kept under the text of another. -/
def annotated : Task where
  metadata :=
    { name := "gate", version := 3, annotations := SortedMap.empty.insert "owner" "ops" }
  spec := { approvers := [{ name := "ann", vote := .other "approve" }], required := 1 }

def mixedCase : String := "2FB1215ca4aa688b1e10E6B1d916787b9237fb8fB15060d60ccd1e14c1e5c88B"

theorem mixed_case_reads_back :
    ∃ d, ofHex mixedCase = .ok d ∧
      d.hex = "2fb1215ca4aa688b1e10e6b1d916787b9237fb8fb15060d60ccd1e14c1e5c88b" ∧
      annotated.Representable ∧
      ∃ u, Task.decoder.ofJson (annotated.withDigest d).toJson = .ok u ∧ u.digest? = some d ∧
        u.metadata.annotations.get? "owner" = some "ops" := by
  obtain ⟨hread, hwritten⟩ := stored_reads_back.2.1 mixedCase
  obtain ⟨d, hd⟩ := hread.mpr (by simp [mixedCase, IsDigit])
  have hrepresentable : annotated.Representable := by
    refine ⟨by decide, by simp [annotated], rfl, rfl, rfl, by simp [annotated]⟩
  obtain ⟨u, hdecodes, hdigest, hothers⟩ := stored_reads_back.2.2 annotated d hrepresentable
  refine ⟨d, hd, ?_, hrepresentable, u, hdecodes, hdigest, hothers "owner" (by decide)⟩
  rw [hwritten d hd]
  decide +kernel

end Digest
end Quorum
