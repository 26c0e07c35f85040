import Quorum.Integer
import Quorum.Text.Blank
import Quorum.Time.Calendar
import Quorum.Time.Instant
/-!
# RFC 3339 times

Times are written in Coordinated Universal Time with no fraction or one of three, six or nine
digits. Reading is lenient: the parts need no leading zeros, blanks may stand around the
separators, a blank may stand for the `T`, and any offset may follow.
-/
namespace Quorum.Instant
open Quorum.Text

/-- Why a text is no time. The first thing that is wrong counts. -/
inductive TimeError
  | tooShort
  | invalid
  | outOfRange
  | trailing
  | impossible
deriving DecidableEq, Repr

def TimeError.message : TimeError → String
  | .tooShort => "premature end of input"
  | .invalid => "input contains invalid characters"
  | .outOfRange => "input is out of range"
  | .trailing => "trailing input"
  | .impossible => "no possible date and time matching input"

/-- A reader of the front of a text. What it does not take is left for the next one, and an error
says what was missing. -/
abbrev Front (α : Type) := StateT (List Char) (Except TimeError) α

namespace Front

/-- One to `most` digits; with no limit the number must fit 63 bits. -/
def number (most : Option Nat) : Front Nat := do
  let cs ← get
  let run := cs.takeWhile Char.isDigit
  let digits := match most with
    | some n => run.take n
    | none => run
  match digits, cs with
  | [], [] => throw .tooShort
  | [], _ :: _ => throw .invalid
  | digits, cs =>
    let n := decimalValue digits
    if !Bounds.inInt64 n then throw .outOfRange
    set (cs.drop digits.length)
    return n

def blanks : Front Unit := modify trimLeft

/-- A number of at most so many digits, within bounds. -/
def numberIn (most low high : Nat) : Front Nat := do
  blanks
  let n ← number (some most)
  if n < low ∨ high < n then throw .outOfRange
  return n

/-- Four digits, or a sign and any number of them. -/
def year : Front Int := do
  blanks
  let n : Int ← match ← get with
    | '-' :: cs => set cs; pure (-(← number none : Int))
    | '+' :: cs => set cs; pure (← number none : Int)
    | _ => pure (← number (some 4) : Int)
  if !Bounds.inInt32 n then throw .outOfRange
  return n

def mark (c : Char) : Front Unit := do
  match ← get with
  | [] => throw .tooShort
  | d :: cs => if c = d then set cs else throw .invalid

/-- Digits past the ninth are dropped. -/
def fraction : Front Nat := do
  match ← get with
  | '.' :: cs =>
    set cs
    let n ← number (some 9)
    let read := cs.length - (← get).length
    modify (·.dropWhile Char.isDigit)
    return n * Decimal.tenTo (9 - read)
  | _ => return 0

/-- What may stand between the date and the time of day. -/
def isSeparator (c : Char) : Bool := c = 'T' || c = 't' || c = ' '

def separator : Front Unit := do
  match ← get with
  | [] => throw .tooShort
  | c :: cs => if isSeparator c then set cs else throw .invalid

/-- The sign of an offset, either of two characters for minus. -/
def sign : Front Bool := do
  match ← get with
  | [] => throw .tooShort
  | '+' :: cs => set cs; return false
  | '-' :: cs | '\u2212' :: cs => set cs; return true
  | _ => throw .invalid

/-- Two digits. Length is judged in octets, so a lone character of several of them is no digit
but long enough. -/
def twoDigits : Front Nat := do
  match ← get with
  | [] => throw .tooShort
  | [c] => if c.utf8Size < 2 then throw .tooShort else throw .invalid
  | c :: d :: cs =>
    if c.isDigit && d.isDigit then set cs; return decimalValue [c, d]
    else throw .invalid

def isOffsetGap (c : Char) : Bool := c = ':' || isBlank c

/-- Seconds east of Greenwich: `Z`, `UTC`, or a sign, two digits of hours and two of minutes. -/
def offset : Front Int := do
  match ← get with
  | 'Z' :: cs | 'z' :: cs => set cs; return 0
  | u :: t :: c :: cs =>
    if [u, t, c].map Char.toLower = ['u', 't', 'c'] then set cs; return 0
    else numeric
  | _ => numeric
where
  numeric : Front Int := do
    let west ← sign
    let hours ← twoDigits
    modify (·.dropWhile isOffsetGap)
    let minutes ← twoDigits
    if minutes ≥ 60 then throw .outOfRange
    let seconds : Int := hours * 3600 + minutes * 60
    return if west then -seconds else seconds

end Front

/-- The local calendar fields of a time, its fraction and its offset. -/
structure Fields where
  date : Date
  hour : Nat
  minute : Nat
  second : Nat
  nanos : Nat
  offset : Int

open Front in
/-- The fields of a time, in the order they are written in. -/
def fields : Front Fields := do
  let y ← year
  blanks; mark '-'
  let month ← numberIn 2 1 12
  blanks; mark '-'
  let day ← numberIn 2 1 31
  separator
  let hour ← numberIn 2 0 23
  blanks; mark ':'
  let minute ← numberIn 2 0 59
  blanks; mark ':'
  let second ← numberIn 2 0 60
  let nanos ← fraction
  blanks
  let offset ← Front.offset
  if !(trimLeft (← get)).isEmpty then throw .trailing
  return ⟨⟨y, month, day⟩, hour, minute, second, nanos, offset⟩

/-- The sixtieth second is the fifty-ninth with its nanoseconds counted on. -/
def ofFields (f : Fields) : Except TimeError Instant := do
  if !f.date.exists? then throw .outOfRange
  if f.offset ≤ -86400 ∨ 86400 ≤ f.offset then throw .outOfRange
  let leap := f.second = 60
  let local_ : Int := f.date.toDays * 86400 + f.hour * 3600 + f.minute * 60 +
    (if leap then 59 else f.second)
  let seconds := local_ - f.offset
  if !(Date.ofDays (seconds / 86400)).exists? then throw .impossible
  return ⟨seconds, f.nanos + if leap then nanosPerSecond else 0⟩

/-- The instant that a text stands for. Nothing may follow it. -/
def parse (text : String) : Except TimeError Instant := do
  let (f, _) ← fields.run text.toList
  ofFields f

/-- A number in at least so many digits. -/
def padded (width n : Nat) : List Char :=
  let ds := Nat.toDigits 10 n
  List.replicate (width - ds.length) '0' ++ ds

/-- Years of more than four digits and years before zero carry a sign. -/
def yearChars (year : Int) : List Char :=
  if 0 ≤ year ∧ year ≤ 9999 then padded 4 year.toNat
  else (if year < 0 then '-' else '+') :: padded 4 year.natAbs

/-- The fraction of a second in three, six or nine digits, the fewest that leave nothing out; none
at all for a whole second. -/
def fractionChars (nanos : Nat) : List Char :=
  if nanos = 0 then []
  else if nanos % 1000000 = 0 then '.' :: padded 3 (nanos / 1000000)
  else if nanos % 1000 = 0 then '.' :: padded 6 (nanos / 1000)
  else '.' :: padded 9 nanos

/-- How an instant is written: in Coordinated Universal Time, its offset by a letter. -/
def text (t : Instant) : String :=
  let date := Date.ofDays (t.seconds / 86400)
  let second := (t.seconds % 86400).toNat
  let leap := if t.inLeapSecond then 1 else 0
  String.ofList <|
    yearChars date.year ++ '-' :: padded 2 date.month ++ '-' :: padded 2 date.day ++ 'T' ::
    padded 2 (second / 3600) ++ ':' :: padded 2 (second / 60 % 60) ++ ':' ::
    padded 2 (second % 60 + leap) ++ fractionChars (t.nanos % nanosPerSecond) ++ ['Z']

end Quorum.Instant
