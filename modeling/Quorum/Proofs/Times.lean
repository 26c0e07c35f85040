import Mathlib.Data.List.Induction
import Mathlib.Data.List.TakeWhile
import Quorum.Time.Rfc3339

/-!
# Times survive their notation

A time is written in fields of fixed widths, each ended by a mark, so reading finds the same fields
(`Instant.run_fields`), and the fields make up the second they were taken from, since the calendar
counts its days both ways (`Date.toDays_ofDays`). Whatever is read from a text is such a time again
(`Instant.valid_of_parse`).
-/
namespace Quorum

namespace Date

/-- A day of an era lies in the year that it is counted in. -/
theorem ofYear_bounds {ofEra year : Int} (hlow : 0 ≤ ofEra) (hhigh : ofEra < 146097)
    (hyear : year = (ofEra - ofEra / 1460 + ofEra / 36524 - ofEra / 146096) / 365) :
    0 ≤ ofEra - (365 * year + year / 4 - year / 100) ∧
      ofEra - (365 * year + year / 4 - year / 100) ≤ 365 := by
  have hcentury : ofEra / 36524 = 0 ∨ ofEra / 36524 = 1 ∨ ofEra / 36524 = 2 ∨ ofEra / 36524 = 3 ∨
      ofEra / 36524 = 4 := by omega
  have hyears : year / 100 = 0 ∨ year / 100 = 1 ∨ year / 100 = 2 ∨ year / 100 = 3 := by omega
  rcases hcentury with h | h | h | h | h <;> rcases hyears with h' | h' | h' | h' <;> omega

/-- The days to a date, with its year and its month counted from March. -/
theorem marchDays_of_march {year month day : Int} {m d : Nat} {y : Int}
    (hmonth : 0 ≤ month ∧ month ≤ 11) (hm : m = (if month < 10 then month + 3 else month - 9))
    (hd : d = day) (hy : y = (if m ≤ 2 then year + 1 else year)) :
    marchDays ⟨y, m, d⟩ =
      365 * year + year / 4 - year / 100 + year / 400 + (153 * month + 2) / 5 + day - 1 := by
  have hback : ((m : Int) + 9) % 12 = month := by split at hm <;> omega
  have hyear : (if m ≤ 2 then y - 1 else y) = year := by
    by_cases hwrap : m ≤ 2
    · rw [if_pos hwrap] at hy ⊢
      omega
    · rw [if_neg hwrap] at hy ⊢
      exact hy
  simp only [marchDays, hback, hyear, hd]

/-- Every number of a day is that of the day it leads to, with no bounds on either. The two
directions of the calendar do not share their arithmetic, hence the two lemmas above. -/
theorem toDays_ofDays (n : Int) : (ofDays n).toDays = n := by
  unfold ofDays toDays
  extract_lets z era ofEra yearOfEra ofYear month day calendarMonth year
  have hyearOfEra : 0 ≤ yearOfEra ∧ yearOfEra ≤ 399 := by omega
  have hofYear : 0 ≤ ofYear ∧ ofYear ≤ 365 := ofYear_bounds (by omega) (by omega) rfl
  have hmonth : 0 ≤ month ∧ month ≤ 11 := by omega
  have hcalendar : 0 ≤ calendarMonth := by
    unfold calendarMonth
    split <;> omega
  have hdays : marchDays ⟨if calendarMonth ≤ 2 then year + 1 else year, calendarMonth.toNat,
      day.toNat⟩ =
        365 * year + year / 4 - year / 100 + year / 400 + (153 * month + 2) / 5 + day - 1 :=
    marchDays_of_march hmonth (by omega) (by omega) (by simp only [Int.toNat_le]; rfl)
  rw [hdays]
  have hera : n + 719468 = 146097 * era + ofEra := by omega
  have hofEra : ofEra = 365 * yearOfEra + yearOfEra / 4 - yearOfEra / 100 + ofYear := by omega
  have hfour : year / 4 = yearOfEra / 4 + 100 * era := by omega
  have hhundred : year / 100 = yearOfEra / 100 + 4 * era := by omega
  have hfourHundred : year / 400 = era := by omega
  rw [hfour, hhundred, hfourHundred]
  clear hdays hcalendar
  clear_value calendarMonth ofYear
  omega

end Date

open Text

namespace Text

theorem decimalValue_toDigits (n : Nat) : decimalValue (Nat.toDigits 10 n) = n :=
  Nat.ofDigitChars_toDigits (by decide) (by decide)

theorem decimalValue_zeros (k : Nat) (ds : List Char) :
    decimalValue (List.replicate k '0' ++ ds) = decimalValue ds := by
  have hzeros : (List.replicate k '0').foldl (fun n d => 10 * n + digitValue d) 0 = 0 := by
    induction k with
    | zero => rfl
    | succ k ih => exact ih
  unfold decimalValue
  rw [List.foldl_append, hzeros]

theorem decimalValue_lt {ds : List Char} (h : ∀ d ∈ ds, d.isDigit = true) :
    decimalValue ds < Decimal.tenTo ds.length := by
  induction ds using List.reverseRecOn with
  | nil => decide
  | append_singleton ds d ih =>
    have hd : d.isDigit = true := h d (by simp)
    simp only [Char.isDigit, Bool.and_eq_true, decide_eq_true_eq] at hd
    have hdigit : d.toNat ≤ 57 := hd.2
    have hrest := ih fun c hc => h c (List.mem_append_left [d] hc)
    have hvalue : decimalValue (ds ++ [d]) = 10 * decimalValue ds + digitValue d := by
      simp [decimalValue]
    have hnext : Decimal.tenTo (ds.length + 1) = Decimal.tenTo ds.length * 10 := rfl
    rw [hvalue, digitValue, List.length_append, List.length_singleton, hnext]
    omega

end Text

namespace Instant

/-- The zeros in front do not count, so that a padded number is read as the number. -/
theorem decimalValue_padded (width n : Nat) : decimalValue (padded width n) = n := by
  rw [padded, decimalValue_zeros, decimalValue_toDigits]

theorem isDigit_of_mem_padded {width n : Nat} {c : Char} (h : c ∈ padded width n) :
    c.isDigit = true := by
  rw [padded, List.mem_append] at h
  rcases h with h | h
  · rw [List.eq_of_mem_replicate h]
    rfl
  · exact Nat.isDigit_of_mem_toDigits (by decide) (by decide) h

theorem length_padded {width n : Nat} (hwidth : 0 < width) (hn : n < Decimal.tenTo width) :
    (padded width n).length = width := by
  have hlength := (Nat.length_toDigits_le_iff (by decide) hwidth).mpr hn
  rw [padded, List.length_append, List.length_replicate]
  omega

theorem padded_ne_nil (width n : Nat) : padded width n ≠ [] := by
  intro h
  have hlength := congrArg List.length h
  have hpos := Nat.length_toDigits_pos (b := 10) (n := n)
  rw [padded, List.length_append, List.length_nil] at hlength
  omega

namespace Front

/-- Reading goes on behind what has been read. With this lemma the readers are run one after the
other on the text of a time. -/
theorem run_bind {x : Front α} {f : α → Front β} {cs cs' : List Char} {a : α}
    (h : x.run cs = .ok (a, cs')) : (x >>= f).run cs = (f a).run cs' := by
  rw [StateT.run_bind, h]
  rfl

theorem run_get {f : List Char → Front β} {cs : List Char} :
    (get >>= f).run cs = (f cs).run cs := rfl

theorem run_set {f : PUnit → Front β} {cs cs' : List Char} :
    (set cs' >>= f).run cs = (f ()).run cs' := rfl

/-- A row of digits is read as its number and ends where the digits end, provided that it is not too
long and the number not too large. -/
theorem run_number {most : Option Nat} {ds rest : List Char} (hdigits : ∀ c ∈ ds, c.isDigit = true)
    (hne : ds ≠ []) (hrest : rest.takeWhile Char.isDigit = []) (hmost : ∀ n ∈ most, ds.length ≤ n)
    (hrange : decimalValue ds ≤ Bounds.int64Max) :
    (number most).run (ds ++ rest) = .ok (decimalValue ds, rest) := by
  have hrun : (ds ++ rest).takeWhile Char.isDigit = ds := by
    rw [List.takeWhile_append_of_pos hdigits, hrest, List.append_nil]
  have hfit : Bounds.inInt64 (decimalValue ds) = true := by
    simp only [Bounds.inInt64, Bool.and_eq_true, decide_eq_true_eq]
    exact ⟨by unfold Bounds.int64Min; omega, hrange⟩
  have hdone : (do
      set ((ds ++ rest).drop ds.length)
      return decimalValue ds : Front Nat).run (ds ++ rest) = .ok (decimalValue ds, rest) := by
    rw [List.drop_left]
    rfl
  obtain ⟨d, ds, rfl⟩ := List.exists_cons_of_ne_nil hne
  unfold number
  rw [run_get]
  cases most with
  | none =>
    simp only [hrun, hfit]
    exact hdone
  | some n =>
    simp only [hrun, List.take_of_length_le (hmost n rfl), hfit]
    exact hdone

theorem run_number_padded (most : Option Nat) (width n : Nat) {rest : List Char}
    (hmost : ∀ k ∈ most, (padded width n).length ≤ k) (hrange : (n : Int) ≤ Bounds.int64Max)
    (hrest : rest.takeWhile Char.isDigit = []) :
    (number most).run (padded width n ++ rest) = .ok (n, rest) := by
  have hvalue := decimalValue_padded width n
  have hread := run_number (fun c => isDigit_of_mem_padded) (padded_ne_nil width n)
    hrest hmost (by rwa [hvalue])
  rwa [hvalue] at hread

theorem run_blanks {c : Char} {cs : List Char} (h : isBlank c = false) :
    blanks.run (c :: cs) = .ok ((), c :: cs) := by
  have htrim : trimLeft (c :: cs) = c :: cs := by simp [trimLeft, h]
  change Except.ok ((), trimLeft (c :: cs)) = _
  rw [htrim]

theorem isBlank_of_isDigit {c : Char} (h : c.isDigit = true) : isBlank c = false := by
  simp only [Char.isDigit, Bool.and_eq_true, decide_eq_true_eq] at h
  have hlow : 48 ≤ c.toNat := h.1
  have hhigh : c.toNat ≤ 57 := h.2
  simp only [isBlank, Bool.or_eq_false_iff, Bool.and_eq_false_iff, decide_eq_false_iff_not]
  omega

theorem run_blanks_padded {width n : Nat} {rest : List Char} :
    blanks.run (padded width n ++ rest) = .ok ((), padded width n ++ rest) := by
  obtain ⟨d, ds, hpadded⟩ := List.exists_cons_of_ne_nil (padded_ne_nil width n)
  have hd : d.isDigit = true := isDigit_of_mem_padded (hpadded ▸ List.mem_cons_self)
  rw [hpadded]
  exact run_blanks (isBlank_of_isDigit hd)

theorem run_numberIn {low high n : Nat} {rest : List Char} (hlow : low ≤ n) (hhigh : n ≤ high)
    (hfits : n < 100) (hrest : rest.takeWhile Char.isDigit = []) :
    (numberIn 2 low high).run (padded 2 n ++ rest) = .ok (n, rest) := by
  have hlength : (padded 2 n).length = 2 := length_padded (by decide) hfits
  have hrange : (n : Int) ≤ Bounds.int64Max := by unfold Bounds.int64Max; omega
  have hread := run_number_padded (some 2) 2 n (by simp [hlength]) hrange hrest
  have hin : ¬ (n < low ∨ high < n) := by omega
  unfold numberIn
  rw [run_bind run_blanks_padded, run_bind hread]
  simp only [if_neg hin]
  rfl

/-- Years of more than four digits, and those before the year zero, carry a sign that the reader
asks for. -/
theorem run_year {y : Int} {rest : List Char} (hlow : -262143 ≤ y) (hhigh : y ≤ 262142)
    (hrest : rest.takeWhile Char.isDigit = []) :
    year.run (yearChars y ++ rest) = .ok (y, rest) := by
  have hfit : Bounds.inInt32 y = true := by
    simp only [Bounds.inInt32, Bool.and_eq_true, decide_eq_true_eq]
    unfold Bounds.int32Min Bounds.int32Max
    omega
  unfold yearChars
  by_cases hplain : 0 ≤ y ∧ y ≤ 9999
  · rw [if_pos hplain]
    have hfits : y.toNat < 10000 := by omega
    have hlength : (padded 4 y.toNat).length = 4 := length_padded (by decide) hfits
    have hread := run_number_padded (some 4) 4 y.toNat (by simp [hlength])
      (by unfold Bounds.int64Max; omega) hrest
    obtain ⟨d, ds, hpadded⟩ := List.exists_cons_of_ne_nil (padded_ne_nil 4 y.toNat)
    have hd : d.isDigit = true := isDigit_of_mem_padded (hpadded ▸ List.mem_cons_self)
    unfold year
    rw [run_bind run_blanks_padded]
    rw [hpadded] at hread ⊢
    rw [run_get]
    simp only [List.cons_append] at hread ⊢
    split
    · next heq =>
      obtain ⟨rfl, -⟩ := List.cons.inj heq
      cases hd
    · next heq =>
      obtain ⟨rfl, -⟩ := List.cons.inj heq
      cases hd
    · rw [run_bind hread]
      simp only [pure_bind, Int.toNat_of_nonneg hplain.1, hfit]
      rfl
  · rw [if_neg hplain]
    have hread := run_number_padded none 4 y.natAbs (by simp)
      (by unfold Bounds.int64Max; omega) hrest
    unfold year
    by_cases hneg : y < 0
    · have hvalue : -(y.natAbs : Int) = y := by omega
      rw [if_pos hneg, List.cons_append, run_bind (run_blanks rfl), run_get]
      simp only
      rw [run_set, run_bind hread]
      simp only [pure_bind, hvalue, hfit]
      rfl
    · have hvalue : (y.natAbs : Int) = y := by omega
      rw [if_neg hneg, List.cons_append, run_bind (run_blanks rfl), run_get]
      simp only
      rw [run_set, run_bind hread]
      simp only [pure_bind, hvalue, hfit]
      rfl

theorem run_fraction_padded {width n : Nat} (hwidth : 0 < width) (hmost : width ≤ 9)
    (hn : n < Decimal.tenTo width) :
    fraction.run ('.' :: padded width n ++ ['Z']) = .ok (n * Decimal.tenTo (9 - width), ['Z']) := by
  have hlength : (padded width n).length = width := length_padded hwidth hn
  have hbound : n < 10 ^ 9 := hn.trans_le (Nat.pow_le_pow_right (by decide) hmost)
  have hread : (number (some 9)).run (padded width n ++ ['Z']) = .ok (n, ['Z']) :=
    run_number_padded (some 9) width n (by simpa [hlength] using hmost)
      (by unfold Bounds.int64Max; omega) rfl
  have hcount : (padded width n ++ ['Z']).length - ['Z'].length = width := by simp [hlength]
  unfold fraction
  rw [List.cons_append, run_get]
  simp only
  rw [run_set, run_bind hread, run_get, hcount]
  rfl

/-- The fraction is read back whichever of the three lengths it was written in. -/
theorem run_fraction {nanos : Nat} (h : nanos < nanosPerSecond) :
    fraction.run (fractionChars nanos ++ ['Z']) = .ok (nanos, ['Z']) := by
  unfold nanosPerSecond at h
  unfold fractionChars
  by_cases hnone : nanos = 0
  · subst hnone
    rfl
  rw [if_neg hnone]
  by_cases hmillis : nanos % 1000000 = 0
  · have hfits : nanos / 1000000 < 1000 := by omega
    have hvalue : nanos / 1000000 * Decimal.tenTo (9 - 3) = nanos := by
      change nanos / 1000000 * 1000000 = nanos
      omega
    rw [if_pos hmillis, run_fraction_padded (by decide) (by decide) hfits, hvalue]
  rw [if_neg hmillis]
  by_cases hmicros : nanos % 1000 = 0
  · have hfits : nanos / 1000 < 1000000 := by omega
    have hvalue : nanos / 1000 * Decimal.tenTo (9 - 6) = nanos := by
      change nanos / 1000 * 1000 = nanos
      omega
    rw [if_pos hmicros, run_fraction_padded (by decide) (by decide) hfits, hvalue]
  · have hvalue : nanos * Decimal.tenTo (9 - 9) = nanos := Nat.mul_one nanos
    rw [if_neg hmicros, run_fraction_padded (by decide) (by decide) h, hvalue]

theorem takeWhile_fractionChars (nanos : Nat) :
    (fractionChars nanos ++ ['Z']).takeWhile Char.isDigit = [] := by
  unfold fractionChars
  split
  · rfl
  split
  · rfl
  split
  · rfl
  · rfl

theorem run_mark (c : Char) (cs : List Char) : (mark c).run (c :: cs) = .ok ((), cs) := by
  unfold mark
  rw [run_get]
  simp only [if_pos]
  rfl

end Front

/-- The fields that an instant is written with. In a leap second the sixty-first second is shown, as
the count of nanoseconds says. -/
def shown (t : Instant) : Fields where
  date := Date.ofDays (t.seconds / 86400)
  hour := (t.seconds % 86400).toNat / 3600
  minute := (t.seconds % 86400).toNat / 60 % 60
  second := (t.seconds % 86400).toNat % 60 + if t.inLeapSecond then 1 else 0
  nanos := t.nanos % nanosPerSecond
  offset := 0

/-- The text of the fields, as `Instant.text` writes them. -/
def Fields.chars (f : Fields) : List Char :=
  yearChars f.date.year ++ '-' :: padded 2 f.date.month ++ '-' :: padded 2 f.date.day ++ 'T' ::
  padded 2 f.hour ++ ':' :: padded 2 f.minute ++ ':' :: padded 2 f.second ++
  fractionChars f.nanos ++ ['Z']

theorem text_eq (t : Instant) : t.text = String.ofList t.shown.chars := rfl

/-- Fields within their ranges, in Coordinated Universal Time. -/
structure Fields.InRange (f : Fields) : Prop where
  date : f.date.exists? = true
  hour : f.hour ≤ 23
  minute : f.minute ≤ 59
  second : f.second ≤ 60
  nanos : f.nanos < nanosPerSecond
  offset : f.offset = 0

open Front in
/-- Fields within their ranges are read back from their text, one reader after the other, with
nothing left behind. -/
theorem run_fields {f : Fields} (h : f.InRange) : fields.run f.chars = .ok (f, []) := by
  obtain ⟨⟨y, month, day⟩, hour, minute, second, nanos, _⟩ := f
  obtain ⟨hdate, hhour, hminute, hsecond, hnanos, rfl⟩ := h
  simp only [Date.exists?, Bool.and_eq_true, decide_eq_true_eq] at hdate hhour hminute hsecond
  simp only at hnanos
  obtain ⟨⟨⟨⟨⟨hlow, hhigh⟩, hm1⟩, hm12⟩, hd1⟩, hdays⟩ := hdate
  have hmonth : Date.daysInMonth y month ≤ 31 := by
    unfold Date.daysInMonth
    split_ifs <;> omega
  unfold Fields.chars fields
  simp only [List.append_assoc, List.cons_append]
  rw [run_bind (run_year hlow hhigh rfl), run_bind (run_blanks rfl), run_bind (run_mark _ _),
    run_bind (run_numberIn hm1 hm12 (by omega) rfl), run_bind (run_blanks rfl),
    run_bind (run_mark _ _), run_bind (run_numberIn hd1 (by omega) (by omega) rfl),
    run_bind (x := separator) (a := ()) rfl,
    run_bind (run_numberIn (Nat.zero_le _) hhour (by omega) rfl), run_bind (run_blanks rfl),
    run_bind (run_mark _ _), run_bind (run_numberIn (Nat.zero_le _) hminute (by omega) rfl),
    run_bind (run_blanks rfl), run_bind (run_mark _ _),
    run_bind (run_numberIn (Nat.zero_le _) hsecond (by omega) (takeWhile_fractionChars _)),
    run_bind (run_fraction hnanos), run_bind (run_blanks rfl)]
  rfl

/-- In the range of dates, and past the end of a second only where a leap second may be. -/
structure Valid (t : Instant) : Prop where
  date : (Date.ofDays (t.seconds / 86400)).exists? = true
  nanos : t.nanos < nanosPerSecond ∨ t.nanos < 2 * nanosPerSecond ∧ t.seconds % 60 = 59

/-- What is shown of a valid instant lies within the ranges that readers insist on. -/
theorem Valid.shown_inRange {t : Instant} (h : t.Valid) : t.shown.InRange where
  date := h.date
  hour := by simp only [shown]; omega
  minute := by simp only [shown]; omega
  second := by simp only [shown]; split <;> omega
  nanos := Nat.mod_lt _ (by decide)
  offset := rfl

/-- The second that the fields stand for. -/
def Fields.seconds (f : Fields) : Int :=
  f.date.toDays * 86400 + f.hour * 3600 + f.minute * 60 +
    (if f.second = 60 then 59 else f.second) - f.offset

theorem unless_eq_ok_iff {ε α : Type} {p : Prop} [Decidable p] {e : ε} {x : Except ε α} {a : α} :
    (if p then (throw e >>= fun (_ : PUnit) => x) else x) = .ok a ↔ ¬ p ∧ x = .ok a := by
  by_cases hp : p
  · rw [if_pos hp]
    constructor
    · intro h
      cases h
    · intro h
      exact absurd hp h.1
  · rw [if_neg hp]
    exact (and_iff_right hp).symm

theorem ofFields_eq_ok_iff {f : Fields} {t : Instant} :
    ofFields f = .ok t ↔ f.date.exists? = true ∧ ¬ (f.offset ≤ -86400 ∨ 86400 ≤ f.offset) ∧
      (Date.ofDays (f.seconds / 86400)).exists? = true ∧
      ⟨f.seconds, f.nanos + if f.second = 60 then nanosPerSecond else 0⟩ = t := by
  simp only [ofFields, unless_eq_ok_iff, Bool.not_eq_true', Bool.not_eq_false, Fields.seconds, pure,
    Except.pure, Except.ok.injEq]

/-- The instant is made again from the fields that were shown of it. -/
theorem Valid.ofFields_shown {t : Instant} (h : t.Valid) : ofFields t.shown = .ok t := by
  obtain ⟨hdate, hnanos⟩ := h
  have hday := Date.toDays_ofDays (t.seconds / 86400)
  have hleap : t.shown.second = 60 ↔ nanosPerSecond ≤ t.nanos := by
    simp only [shown, inLeapSecond, decide_eq_true_eq]
    split <;> omega
  have hseconds : t.shown.seconds = t.seconds := by
    unfold Fields.seconds
    by_cases hin : nanosPerSecond ≤ t.nanos
    · rw [if_pos (hleap.mpr hin)]
      simp only [shown, hday]
      omega
    · rw [if_neg fun h => hin (hleap.mp h)]
      simp only [shown, hday, inLeapSecond, ge_iff_le, hin, decide_false, Bool.false_eq_true,
        if_false]
      omega
  have hfraction :
      t.shown.nanos + (if t.shown.second = 60 then nanosPerSecond else 0) = t.nanos := by
    by_cases hin : nanosPerSecond ≤ t.nanos
    · rw [if_pos (hleap.mpr hin)]
      simp only [shown, nanosPerSecond] at hin hnanos ⊢
      omega
    · rw [if_neg fun h => hin (hleap.mp h), Nat.add_zero]
      exact Nat.mod_eq_of_lt (Nat.lt_of_not_le hin)
  rw [ofFields_eq_ok_iff, hseconds, hfraction]
  exact ⟨hdate, by simp [shown], hdate, rfl⟩

/-- A valid instant is read back from its own text. -/
theorem parse_text {t : Instant} (h : t.Valid) : parse t.text = .ok t := by
  unfold parse
  rw [text_eq, String.toList_ofList, run_fields h.shown_inRange]
  exact h.ofFields_shown

namespace Front
variable {x : Front α} {f : α → Front β} {P : α → Prop} {Q : β → Prop} {a : α}

/-- Whatever `x` reads, it makes something with the property `P` of it. -/
def Yields (x : Front α) (P : α → Prop) : Prop := ∀ cs a cs', x.run cs = .ok (a, cs') → P a

theorem Yields.pure (h : P a) : (Pure.pure a : Front α).Yields P := by
  intro cs a' cs' hrun
  cases hrun
  exact h

/-- What two readers yield one after the other. All readers of dates are put together by it. -/
theorem Yields.bind (hx : x.Yields P) (hf : ∀ a, P a → (f a).Yields Q) : (x >>= f).Yields Q := by
  intro cs b cs' hrun
  rw [StateT.run_bind] at hrun
  cases hfirst : x.run cs with
  | error e =>
    rw [hfirst] at hrun
    cases hrun
  | ok first =>
    rw [hfirst] at hrun
    exact hf first.1 (hx cs first.1 first.2 hfirst) first.2 b cs' hrun

/-- After a part of which nothing needs to be known. -/
theorem Yields.after (hf : ∀ a, (f a).Yields Q) : (x >>= f).Yields Q :=
  Yields.bind (P := fun _ => True) (fun _ _ _ _ => trivial) fun a _ => hf a

theorem Yields.ite {y : Front α} {p : Prop} [Decidable p] (hx : p → x.Yields P)
    (hy : ¬ p → y.Yields P) : (if p then x else y).Yields P := by
  by_cases hp : p
  · rw [if_pos hp]
    exact hx hp
  · rw [if_neg hp]
    exact hy hp

theorem Yields.unless {p : Prop} [Decidable p] {e : TimeError} (hx : ¬ p → x.Yields P) :
    (if p then (throw e >>= fun (_ : PUnit) => x) else x).Yields P := by
  refine .ite (fun _ => ?_) hx
  intro cs a cs' hrun
  cases hrun

theorem offset_yields : offset.Yields fun n => n % 60 = 0 := by
  have hnumeric : offset.numeric.Yields fun n => n % 60 = 0 := by
    unfold offset.numeric
    refine .after fun west => .after fun hours => .after fun _ => .after fun minutes => ?_
    refine .unless fun _ => .pure ?_
    split <;> omega
  unfold offset
  refine .after fun cs => ?_
  split
  · exact .after fun _ => .pure rfl
  · exact .after fun _ => .pure rfl
  · exact .ite (fun _ => .after fun _ => .pure rfl) fun _ => hnumeric
  · exact hnumeric

/-- A number is of the digits that are gone from the text. -/
theorem number_eq_ok {most : Nat} {cs cs' : List Char} {n : Nat}
    (h : (number (some most)).run cs = .ok (n, cs')) :
    ∃ ds : List Char, (∀ d ∈ ds, d.isDigit = true) ∧ ds.length ≤ most ∧ n = decimalValue ds ∧
      cs.length = ds.length + cs'.length := by
  refine ⟨(cs.takeWhile Char.isDigit).take most, fun d hd => ?_, List.length_take_le _ _, ?_⟩
  · exact List.mem_takeWhile_imp (List.mem_of_mem_take hd)
  have hlength : ((cs.takeWhile Char.isDigit).take most).length ≤ cs.length :=
    (List.length_take_le' _ _).trans (List.takeWhile_sublist _).length_le
  unfold number at h
  rw [run_get] at h
  simp only at h
  split at h
  · cases h
  · cases h
  · split at h
    · cases h
    · cases h
      rw [List.length_drop]
      exact ⟨rfl, by omega⟩

theorem fraction_yields : fraction.Yields fun n => n < nanosPerSecond := by
  intro cs n cs' hrun
  unfold fraction at hrun
  rw [run_get] at hrun
  split at hrun
  · next cs =>
    rw [run_set, StateT.run_bind] at hrun
    cases hnumber : (number (some 9)).run cs with
    | error e =>
      rw [hnumber] at hrun
      cases hrun
    | ok read =>
      rw [hnumber] at hrun
      obtain ⟨ds, hdigits, hmost, hvalue, hlength⟩ := number_eq_ok hnumber
      cases hrun
      have hcount : cs.length - read.2.length = ds.length := by omega
      rw [hcount, hvalue]
      calc decimalValue ds * Decimal.tenTo (9 - ds.length)
          < 10 ^ ds.length * 10 ^ (9 - ds.length) :=
            Nat.mul_lt_mul_of_pos_right (decimalValue_lt hdigits) (Nat.pow_pos (by decide))
        _ = 10 ^ 9 := by rw [← Nat.pow_add, Nat.add_sub_cancel' hmost]
  · cases hrun
    decide

end Front

open Front in
/-- Fields that have been read lie within the ranges of a time of day, whatever the text was. -/
theorem fields_yields :
    fields.Yields fun f => f.nanos < nanosPerSecond ∧ f.offset % 60 = 0 := by
  unfold fields
  -- The date and the time of day are whatever they are, with a mark behind each part.
  refine .after fun y => .after fun _ => .after fun _ => .after fun month => .after fun _ =>
    .after fun _ => .after fun day => .after fun _ => .after fun hour => .after fun _ =>
    .after fun _ => .after fun minute => .after fun _ => .after fun _ => .after fun second => ?_
  refine .bind fraction_yields fun nanos hnanos => .after fun _ => ?_
  refine .bind offset_yields fun offset hoffset => .after fun _ => ?_
  exact .unless fun _ => .pure ⟨hnanos, hoffset⟩

/-- An instant that is made from fields is valid, leap seconds included. -/
theorem valid_of_ofFields {f : Fields} {t : Instant} (hnanos : f.nanos < nanosPerSecond)
    (hoffset : f.offset % 60 = 0) (h : ofFields f = .ok t) : t.Valid := by
  obtain ⟨-, -, hdate, rfl⟩ := ofFields_eq_ok_iff.mp h
  refine ⟨hdate, ?_⟩
  by_cases hleap : f.second = 60
  · simp only [if_pos hleap, Fields.seconds]
    omega
  · simp only [if_neg hleap]
    omega

/-- Reading never makes an instant that could not be written again. So the times of a task that was
decoded survive being encoded. -/
theorem valid_of_parse {s : String} {t : Instant} (h : parse s = .ok t) : t.Valid := by
  unfold parse at h
  cases hfields : fields.run s.toList with
  | error e =>
    rw [hfields] at h
    cases h
  | ok read =>
    rw [hfields] at h
    obtain ⟨hnanos, hoffset⟩ := fields_yields _ _ _ hfields
    exact valid_of_ofFields hnanos hoffset h

end Instant
end Quorum
