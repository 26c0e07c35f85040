import Quorum.Json.Printer
import Quorum.Json.Reader

/-!
# Lists of strings survive their JSON text

A string is written character by character, each of which is read as itself, escaped or not
(`Json.readCharacter_escapeChar`). So the text of a list of strings is read as that list
(`Json.parse_compact_strings`), whatever the strings hold.
-/
namespace Quorum.Json
open Text

/-- A control is written as a code unit below 32, which stands for itself. -/
theorem readEscaped_control {n : Nat} (h : n < 32) (rest : List Char) :
    readEscaped ('0' :: '0' :: Hex.digit (n / 16) :: Hex.digit (n % 16) :: rest) =
      .ok (Char.ofNat n, rest) := by
  have hdigits : ∀ n < 32, octetCount ['0', '0', Hex.digit (n / 16), Hex.digit (n % 16)] = 4 ∧
      Hex.number? ['0', '0', Hex.digit (n / 16), Hex.digit (n % 16)] = some n := by decide
  obtain ⟨hcount, hnumber⟩ := hdigits n h
  have hunit : readUnit ('0' :: '0' :: Hex.digit (n / 16) :: Hex.digit (n % 16) :: rest) =
      .ok (n, rest) := by
    simp only [readUnit, List.take_succ_cons, List.take_zero, List.drop_succ_cons, List.drop_zero,
      hcount, hnumber, Nat.lt_irrefl, if_false]
  have htrail : isTrail n = false := by
    simp only [isTrail, Bool.and_eq_false_iff, decide_eq_false_iff_not]
    omega
  have hlead : isLead n = false := by
    simp only [isLead, Bool.and_eq_false_iff, decide_eq_false_iff_not]
    omega
  simp only [readEscaped, hunit, bind, Except.bind, htrail, hlead, Bool.not_false, if_true,
    Bool.false_eq_true, if_false, pure, Except.pure]

/-- A character that was escaped, or was left as it is, is read back as that character. Controls are
written by their number, which the lemma above reads. -/
theorem readCharacter_escapeChar (c : Char) (rest : List Char) :
    readCharacter (escapeChar c ++ rest) = .ok (some c, rest) := by
  unfold escapeChar
  -- Seven characters have an escape of their own, and the other controls share one.
  iterate 7
    split
    · next h => subst h; rfl
  split
  · next hcontrol =>
    simp only [List.cons_append, List.nil_append, readCharacter, readEscaped_control hcontrol,
      Char.ofNat_toNat]
    rfl
  · next hquote hbar _ _ _ _ _ hplain =>
    rw [List.singleton_append, readCharacter.eq_def]
    split <;> simp_all

theorem readCharacters_of_some {done cs rest : List Char} {c : Char}
    (h : readCharacter cs = .ok (some c, rest)) :
    readCharacters done cs = readCharacters (c :: done) rest := by
  rw [readCharacters]
  split <;> simp_all

theorem readCharacters_of_none {done cs rest : List Char}
    (h : readCharacter cs = .ok (none, rest)) : readCharacters done cs = .ok (done, rest) := by
  rw [readCharacters]
  split <;> simp_all

/-- The characters of a string are read back up to the quote that ends it, the last one on top. The
induction leaves open what has been read before. -/
theorem readCharacters_escaped (cs done rest : List Char) :
    readCharacters done (cs.flatMap escapeChar ++ '"' :: rest) =
      .ok (cs.reverse ++ done, rest) := by
  induction cs generalizing done with
  | nil => exact readCharacters_of_none rfl
  | cons c cs ih =>
    rw [List.flatMap_cons, List.append_assoc,
      readCharacters_of_some (readCharacter_escapeChar c _), ih, List.reverse_cons,
      List.append_assoc, List.singleton_append]

theorem readString_escaped (s : String) (rest : List Char) :
    readString (s.toList.flatMap escapeChar ++ '"' :: rest) = .ok (s, rest) := by
  simp only [readString, readCharacters_escaped, bind, Except.bind, pure, Except.pure,
    List.append_nil, List.reverse_reverse, String.ofList_toList]

theorem stringChars_append (s : String) (rest : List Char) :
    stringChars s ++ rest = '"' :: (s.toList.flatMap escapeChar ++ '"' :: rest) := by
  simp [stringChars]

/-- A string is read back whatever follows it, and whatever fuel is left. -/
theorem readValue_stringChars (fuel room : Nat) (s : String) (rest : List Char) :
    readValue fuel room (stringChars s ++ rest) = .ok (.string s, rest) := by
  have hvalue (cs : List Char) : readValue fuel room ('"' :: cs) =
      (readString cs).map fun r => (.string r.1, r.2) := by
    cases room <;> rfl
  rw [stringChars_append, hvalue, readString_escaped]
  rfl

variable {fuel room n : Nat} {ss : List String} {done : List Json} {rest : List Char}

theorem readItems_done :
    readItems id (readValue fuel room) (n + 1) false done (']' :: rest) = .ok (done, rest) := rfl

/-- One more item, whatever stands in front of it. -/
theorem readItems_more {first : Bool} {cs : List Char} (s : String)
    (hnext : nextItem first cs = .ok (.more (stringChars s ++ rest))) :
    readItems id (readValue fuel room) (n + 1) first done cs =
      readItems id (readValue fuel room) n false (.string s :: done) rest := by
  have hstep : readItems id (readValue fuel room) (n + 1) first done cs =
      (readValue fuel room (stringChars s ++ rest)).bind fun r =>
        readItems id (readValue fuel room) n false (r.1 :: done) r.2 := by
    rw [readItems, hnext]
    rfl
  rw [hstep, readValue_stringChars]
  rfl

/-- Each string takes one step, and so does the closing bracket. -/
theorem readItems_compactItems (hsteps : ss.length < n) :
    readItems id (readValue fuel room) n false done (compactItems (ss.map .string) ++ rest) =
      .ok ((ss.map .string).reverse ++ done, rest) := by
  induction ss generalizing n done with
  | nil =>
    obtain ⟨n, rfl⟩ := Nat.exists_eq_succ_of_ne_zero (Nat.ne_of_gt hsteps)
    exact readItems_done
  | cons s ss ih =>
    obtain ⟨n, rfl⟩ := Nat.exists_eq_succ_of_ne_zero (Nat.ne_of_gt (Nat.zero_lt_of_lt hsteps))
    rw [List.map_cons, compactItems, compactChars, List.cons_append, List.append_assoc,
      readItems_more s rfl, ih (Nat.lt_of_succ_lt_succ hsteps), List.reverse_cons,
      List.append_assoc, List.singleton_append]

/-- A list of strings is read back in as many steps as it has items. The first item has no comma in
front, so it is taken by itself. -/
theorem readValue_strings (hsteps : ss.length < fuel) :
    readValue fuel (room + 1) (compactChars (.array (ss.map .string)) ++ rest) =
      .ok (.array (ss.map .string), rest) := by
  have hitems : readItems id (readValue fuel room) fuel true []
      ((compactChars (.array (ss.map .string))).tail ++ rest) =
        .ok ((ss.map .string).reverse, rest) := by
    obtain ⟨n, rfl⟩ := Nat.exists_eq_succ_of_ne_zero (Nat.ne_of_gt (Nat.zero_lt_of_lt hsteps))
    cases ss with
    | nil => rfl
    | cons s ss =>
      rw [List.map_cons, compactChars, List.tail_cons, compactChars, List.append_assoc,
        readItems_more s rfl, readItems_compactItems (Nat.lt_of_succ_lt_succ hsteps),
        List.reverse_cons]
  have hopens : compactChars (.array (ss.map .string)) =
      '[' :: (compactChars (.array (ss.map .string))).tail := by
    cases ss <;> rfl
  rw [hopens, List.cons_append]
  change (readItems id (readValue fuel room) fuel true [] _ >>= _) = _
  rw [hitems]
  simp only [bind, Except.bind, pure, Except.pure, List.reverse_reverse]

theorem length_compactItems (js : List Json) : js.length < (compactItems js).length := by
  induction js with
  | nil => simp [compactItems]
  | cons j js ih =>
    simp only [compactItems, List.length_cons, List.length_append]
    omega

/-- The text of a list is longer than the list, so the fuel that a parser takes from the text is
enough. -/
theorem length_lt_compactChars (ss : List String) :
    ss.length < (compactChars (.array (ss.map .string))).length := by
  cases ss with
  | nil => simp [compactChars]
  | cons s ss =>
    have hitems := length_compactItems (ss.map .string)
    simp only [List.length_map] at hitems
    simp only [List.map_cons, compactChars, List.length_cons, List.length_append]
    omega

/-- Strings put into a list, printed and parsed come back as they were. So a list of names and the
text of the list say the same to whoever reads parameters. -/
theorem parse_compact_strings (ss : List String) :
    parse (compact (.array (ss.map .string))) = .ok (.array (ss.map .string)) := by
  have hsteps := length_lt_compactChars ss
  have hread : readValue ((compactChars (.array (ss.map .string))).length + 1) maxDepth
      (compactChars (.array (ss.map .string)) ++ []) = .ok (.array (ss.map .string), []) :=
    readValue_strings (Nat.lt_succ_of_lt hsteps)
  rw [List.append_nil] at hread
  simp only [parse, compact, String.toList_ofList, hread, bind, Except.bind]
  rfl

end Quorum.Json
