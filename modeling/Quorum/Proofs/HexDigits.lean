import Quorum.Wire.Digest

/-!
# Digests survive their digits

A digest is written as two digits for each octet, and what is written is read as that digest again
(`Digest.ofHex_hex`). A task that has been given a digest has that digest on record
(`Task.digest?_withDigest`).
-/
namespace Quorum

theorem toList_loop_eq (bs : ByteArray) (i : Nat) (r : List UInt8) :
    ByteArray.toList.loop bs i r = r.reverse ++ bs.data.toList.drop i := by
  fun_induction ByteArray.toList.loop bs i r with
  | case1 i r h ih =>
    have hi : i < bs.data.toList.length := by simpa using h
    have hget : bs.get! i = bs.data.toList[i] := by
      change bs.data[i]! = _
      rw [getElem!_pos bs.data i (by simpa using h), Array.getElem_toList]
    rw [ih, List.reverse_cons, List.append_assoc, List.drop_eq_getElem_cons hi, hget]
    rfl
  | case2 i r h =>
    have hi : bs.data.toList.length ≤ i := by simpa using h
    rw [List.drop_eq_nil_of_le hi, List.append_nil]

/-- The list of an array of octets, without the loop that builds it in the library. -/
theorem toList_eq (bs : ByteArray) : bs.toList = bs.data.toList := toList_loop_eq bs 0 []

/-- The octets of a text are those of its characters one after the other. -/
theorem toList_toUTF8_ofList (cs : List Char) :
    (String.ofList cs).toUTF8.toList = cs.flatMap String.utf8EncodeChar := by
  rw [toList_eq, String.toUTF8, String.toByteArray_ofList, List.utf8Encode,
    List.toList_data_toByteArray]

/-- Texts are told apart by their octets. -/
theorem eq_of_octets_eq {s t : String} (h : s.toUTF8.toList = t.toUTF8.toList) : s = t := by
  rw [toList_eq, toList_eq, Array.toList_inj] at h
  exact String.toByteArray_inj.mp (ByteArray.ext h)

namespace Digest
open Text.Hex

theorem utf8EncodeChar_digit :
    ∀ n < 16, String.utf8EncodeChar (digit n) = [UInt8.ofNat (digit n).toNat] := by decide

theorem digit?_digit : ∀ n < 16, readPairs.digit? (UInt8.ofNat (digit n).toNat) = some n := by
  decide

/-- The two digits of an octet, as octets themselves. -/
def digits (b : UInt8) : List UInt8 :=
  [UInt8.ofNat (digit (b.toNat / 16)).toNat, UInt8.ofNat (digit (b.toNat % 16)).toNat]

theorem octet_flatMap_utf8EncodeChar (b : UInt8) :
    (octet b).flatMap String.utf8EncodeChar = digits b := by
  have hb := b.toNat_lt
  simp [octet, digits, utf8EncodeChar_digit (b.toNat / 16) (by omega),
    utf8EncodeChar_digit (b.toNat % 16) (by omega)]

/-- A digest's text has the octets of its digits, two for each octet. -/
theorem octets_hex (d : Digest) : d.hex.toUTF8.toList = d.octets.flatMap digits := by
  rw [hex, write, toList_toUTF8_ofList, List.flatMap_assoc]
  simp only [octet_flatMap_utf8EncodeChar]

/-- Two digits for each octet are read back as the octets, wherever in a text they stand. -/
theorem readPairs_digits (position : Nat) (bs : List UInt8) :
    readPairs position (bs.flatMap digits) = .ok bs := by
  induction bs generalizing position with
  | nil => rfl
  | cons b bs ih =>
    have hb := b.toNat_lt
    have hvalue : UInt8.ofNat (16 * (b.toNat / 16) + b.toNat % 16) = b := by
      rw [Nat.div_add_mod, UInt8.ofNat_toNat]
    simp only [List.flatMap_cons, digits, List.cons_append, List.nil_append, readPairs,
      digit?_digit (b.toNat / 16) (by omega), digit?_digit (b.toNat % 16) (by omega), hvalue]
    rw [show _ = _ from ih (position + 2)]
    rfl

theorem length_digits (bs : List UInt8) : (bs.flatMap digits).length = 2 * bs.length := by
  induction bs with
  | nil => rfl
  | cons b bs ih =>
    simp only [List.flatMap_cons, List.length_append, ih, digits, List.length_cons, List.length_nil]
    omega

/-- A digest is read back from its own text. That other texts are read as digests, too, is shown
with the digits of either case. -/
theorem ofHex_hex (d : Digest) : ofHex d.hex = .ok d := by
  have hlength : (d.octets.flatMap digits).length = 64 := by rw [length_digits, d.length_octets]
  unfold ofHex
  simp only [octets_hex, hlength]
  rw [if_neg (by decide), dif_neg (by decide)]
  split
  · next out h =>
    rw [octets_hex] at h
    obtain rfl : d.octets = out := Except.ok.inj ((readPairs_digits 0 d.octets).symm.trans h)
    rfl
  · next e h =>
    rw [octets_hex] at h
    cases (readPairs_digits 0 d.octets).symm.trans h

end Digest

@[simp] theorem Task.digest?_withDigest (t : Task) (d : Digest) :
    (t.withDigest d).digest? = some d := by
  simp [digest?, withDigest, Digest.ofHex_hex, Except.toOption]

end Quorum
