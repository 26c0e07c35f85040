import Quorum.Integer
import Quorum.Json.Basic
import Quorum.Json.Fault
import Quorum.Text.Hex
/-!
# Words, numbers and strings of JSON texts

Each reader takes a lexeme off the front of a text and leaves the rest. Numbers are whole where they
fit 64 bits and doubles otherwise.
-/
namespace Quorum.Json
open Decimal Text

/-- The four characters that may stand between values. -/
def isGap (c : Char) : Bool := c = ' ' || c = '\n' || c = '\t' || c = '\r'

def skipGaps (cs : List Char) : List Char := cs.dropWhile isGap

/-- What follows a word. -/
def readWord : (word : List Char) → List Char → Except Fault (List Char)
  | [], rest => .ok rest
  | _ :: _, [] => .error (.before .endInValue [])
  | w :: word, c :: cs =>
    if w = c then readWord word cs else .error (.ahead .badIdentifier (c :: cs))

/-- Digits taken into a 64-bit significand until the next one would not fit. -/
def absorb : Nat → List Char → Nat × List Char
  | n, [] => (n, [])
  | n, d :: ds =>
    let m := 10 * n + digitValue d
    if m ≤ Bounds.nat64Max then absorb m ds else (n, d :: ds)

/-- Powers of ten are counted in 32 bits; the first digit that overflows them ends the number. -/
def absorbPower : Nat → List Char → Except (List Char) Nat
  | n, [] => .ok n
  | n, d :: ds =>
    let m := 10 * n + digitValue d
    if m ≤ Bounds.int32Max then absorbPower m ds else .error ds

def signedFloat (negative : Bool) (x : Binary64) : Json :=
  .float (if negative then x.negate else x)

/-- A number with a fraction or an exponent, from its digits and its scale. One that is too large is
an error, not an infinity. -/
def readFloat (negative : Bool) (significand : Nat) (scale : Int) (rest : List Char) :
    Except Fault (Json × List Char) :=
  match Binary64.ofDecimal? significand scale with
  | some x => .ok (signedFloat negative x, rest)
  | none => .error (.before .numberTooLarge rest)

/-- The exponent behind its mark. -/
def readPower (negative : Bool) (significand : Nat) (scale : Int) (cs : List Char) :
    Except Fault (Json × List Char) :=
  let (down, cs) := match cs with
    | '+' :: cs => (false, cs)
    | '-' :: cs => (true, cs)
    | cs => (false, cs)
  match cs with
  | [] => .error (.before .endInValue [])
  | c :: after =>
    if !c.isDigit then .error (.ahead .badNumber (c :: after)) else
      let digits := cs.takeWhile Char.isDigit
      let rest := cs.dropWhile Char.isDigit
      match absorbPower 0 digits with
      | .ok power =>
        readFloat negative significand (if down then scale - power else scale + power) rest
      | .error unread =>
        if significand ≠ 0 ∧ !down then
          .error ⟨.numberTooLarge, octetCount rest + unread.length⟩
        else .ok (signedFloat negative Binary64.zero, rest)

/-- The exponent, if there is one, put on top of the scale. -/
def readScaled (negative : Bool) (significand : Nat) (scale : Int) (cs : List Char) :
    Except Fault (Json × List Char) :=
  match cs with
  | 'e' :: cs | 'E' :: cs => readPower negative significand scale cs
  | cs => readFloat negative significand scale cs

/-- The places behind the point. -/
def readPlaces (negative : Bool) (significand : Nat) (scale : Int) (cs : List Char) :
    Except Fault (Json × List Char) :=
  let places := cs.takeWhile Char.isDigit
  let rest := cs.dropWhile Char.isDigit
  if places.isEmpty then
    .error (.ahead (if cs.isEmpty then .endInValue else .badNumber) cs)
  else
    let (significand, unread) := absorb significand places
    readScaled negative significand (scale - (places.length - unread.length : Nat)) rest

/-- A number behind its sign. Whole numbers that fit 64 bits stay whole; minus zero does not. -/
def readNumber (negative : Bool) (cs : List Char) : Except Fault (Json × List Char) :=
  let digits := cs.takeWhile Char.isDigit
  let rest := cs.dropWhile Char.isDigit
  match digits, cs with
  | [], [] => .error (.before .endInValue [])
  | [], cs => .error (.ahead .badNumber cs)
  | '0' :: d :: ds, _ => .error (.ahead .badNumber (d :: ds ++ rest))
  | digits, _ =>
    let (significand, unread) := absorb 0 digits
    let scale : Int := unread.length
    match rest with
    | '.' :: after => readPlaces negative significand scale after
    | 'e' :: after | 'E' :: after => readPower negative significand scale after
    | rest =>
      if unread.isEmpty ∧ !negative then .ok (.int significand, rest)
      else if unread.isEmpty ∧ significand ≠ 0 ∧ Bounds.inInt64 (-significand) then
        .ok (.int (-significand), rest)
      else readFloat negative significand scale rest

def simpleEscape? (c : Char) : Option Char :=
  match c with
  | '"' => some '"'
  | '\\' => some '\\'
  | '/' => some '/'
  | 'b' => some '\x08'
  | 'f' => some '\x0c'
  | 'n' => some '\n'
  | 'r' => some '\r'
  | 't' => some '\t'
  | _ => none

/-- A code unit is written as four hexadecimal digits, which stand in four octets. -/
def readUnit (cs : List Char) : Except Fault (Nat × List Char) :=
  if octetCount (cs.take 4) < 4 then .error (.before .endInString [])
  else match Hex.number? (cs.take 4) with
    | some n => .ok (n, cs.drop 4)
    | none => .error ⟨.badEscape, octetCount cs - 4⟩

/-- The first half of a character in two escapes. -/
def isLead (n : Nat) : Bool := 0xD800 ≤ n && n ≤ 0xDBFF

/-- The second half of a character in two escapes. -/
def isTrail (n : Nat) : Bool := 0xDC00 ≤ n && n ≤ 0xDFFF

/-- The octet that must come next inside a pair of code units. -/
def readInPair (c : Char) : List Char → Except Fault (List Char)
  | [] => .error (.before .endInString [])
  | d :: cs => if c = d then .ok cs else .error (.ahead .cutSurrogate (d :: cs))

/-- The character of an escape behind its `u`. Characters above the basic plane take two code
units. -/
def readEscaped (cs : List Char) : Except Fault (Char × List Char) := do
  let (n, rest) ← readUnit cs
  if isTrail n then throw (.before .loneSurrogate rest)
  else if !isLead n then return (Char.ofNat n, rest)
  else
    let rest ← readInPair '\\' rest
    let rest ← readInPair 'u' rest
    let (m, rest) ← readUnit rest
    if isTrail m then
      return (Char.ofNat (0x10000 + (n - 0xD800) * 0x400 + (m - 0xDC00)), rest)
    else throw (.before .loneSurrogate rest)

/-- One character of a string, or none at its closing quote. -/
def readCharacter : List Char → Except Fault (Option Char × List Char)
  | [] | ['\\'] => .error (.before .endInString [])
  | '"' :: cs => .ok (none, cs)
  | '\\' :: 'u' :: cs => do
    let (c, cs) ← readEscaped cs
    return (some c, cs)
  | '\\' :: c :: cs =>
    match simpleEscape? c with
    | some e => .ok (some e, cs)
    | none => .error (.ahead .badEscape (c :: cs))
  | c :: cs => if c.toNat < 32 then .error (.before .controlCharacter cs) else .ok (some c, cs)

/-- No reader in this module gives characters back, which is what the readers of lists and objects
end by. -/
theorem length_readUnit {cs rest : List Char} {n : Nat} (h : readUnit cs = .ok (n, rest)) :
    rest.length ≤ cs.length := by
  unfold readUnit at h
  split at h
  · cases h
  · split at h <;> simp at h
    simp [← h.2]

theorem length_readInPair {c : Char} {cs rest : List Char} (h : readInPair c cs = .ok rest) :
    rest.length ≤ cs.length := by
  cases cs with
  | nil => cases h
  | cons d cs =>
    simp only [readInPair] at h
    split at h <;> simp at h
    simp [← h]

theorem length_readEscaped {cs rest : List Char} {c : Char} (h : readEscaped cs = .ok (c, rest)) :
    rest.length ≤ cs.length := by
  unfold readEscaped at h
  cases hu : readUnit cs with
  | error f => simp [hu, bind, Except.bind] at h
  | ok unit =>
    have := length_readUnit hu
    simp only [hu, bind, Except.bind, pure, Except.pure] at h
    split at h
    · cases h
    split at h
    · simp at h; simp_all
    cases hb : readInPair '\\' unit.2 with
    | error f => simp [hb] at h
    | ok behindBar =>
      have := length_readInPair hb
      cases hm : readInPair 'u' behindBar with
      | error f => simp [hb, hm] at h
      | ok behindMark =>
        have := length_readInPair hm
        cases ht : readUnit behindMark with
        | error f => simp [hb, hm, ht] at h
        | ok trail =>
          have := length_readUnit ht
          simp only [hb, hm, ht] at h
          split at h
          · simp only [Except.ok.injEq, Prod.mk.injEq] at h
            rw [← h.2]
            omega
          · cases h

/-- A character of a string, or its closing quote, takes up some of the text. -/
theorem length_readCharacter {cs rest : List Char} {o : Option Char}
    (h : readCharacter cs = .ok (o, rest)) : rest.length < cs.length := by
  unfold readCharacter at h
  split at h
  · cases h
  · cases h
  · simp at h; simp [← h.2]
  · simp only [bind, Except.bind, pure, Except.pure] at h
    split at h <;> simp at h
    next he =>
      have := length_readEscaped he
      simp only [← h.2, List.length_cons]
      omega
  · split at h <;> simp at h
    simp only [← h.2, List.length_cons]; omega
  · split at h <;> simp at h
    simp [← h.2]

/-- The characters up to the closing quote on top of those already read, the last one first. -/
def readCharacters (done cs : List Char) : Except Fault (List Char × List Char) :=
  match _h : readCharacter cs with
  | .error f => .error f
  | .ok (none, rest) => .ok (done, rest)
  | .ok (some c, rest) => readCharacters (c :: done) rest
termination_by cs.length
decreasing_by exact length_readCharacter ‹_›

/-- A string behind its opening quote. -/
def readString (cs : List Char) : Except Fault (String × List Char) := do
  let (done, rest) ← readCharacters [] cs
  return (String.ofList done.reverse, rest)

/-- What stands at the start of a text. Of a container only the bracket is read. -/
def readHead (cs : List Char) : Except Fault (Json × List Char) :=
  match skipGaps cs with
  | [] => .error (.ahead .endInValue [])
  | 'n' :: cs => (readWord ['u', 'l', 'l'] cs).map (.null, ·)
  | 't' :: cs => (readWord ['r', 'u', 'e'] cs).map (.bool true, ·)
  | 'f' :: cs => (readWord ['a', 'l', 's', 'e'] cs).map (.bool false, ·)
  | '-' :: cs => readNumber true cs
  | '"' :: cs => (readString cs).map fun (s, rest) => (.string s, rest)
  | '[' :: cs => .ok (.array [], cs)
  | '\x7b' :: cs => .ok (.object [], cs)
  | c :: cs =>
    if c.isDigit then readNumber false (c :: cs) else .error (.ahead .missingValue (c :: cs))

end Quorum.Json
