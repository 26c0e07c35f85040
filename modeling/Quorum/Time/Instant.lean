/-!
# Instants and spans

An instant is a second of the Unix calendar in Coordinated Universal Time with nanoseconds. A leap
second has no number of its own: it is the second before it with its nanoseconds counted on past
one thousand million. A span is a length of time in nanoseconds and never negative.
-/
namespace Quorum

/-- All lengths of time below a second are counted by this. -/
def nanosPerSecond : Nat := 1000000000

/-- A point in time. Nanoseconds from one thousand million on mean a leap second. -/
structure Instant where
  seconds : Int
  nanos : Nat
deriving DecidableEq, Repr

/-- A length of time, in nanoseconds. It is never negative, so what lies before a start has no span
from it. -/
structure Span where
  nanos : Nat
deriving DecidableEq, Repr

namespace Span

def zero : Span := ⟨0⟩

def ofSeconds (n : Nat) : Span := ⟨n * nanosPerSecond⟩

def make (seconds nanos : Nat) : Span := ⟨seconds * nanosPerSecond + nanos⟩

def wholeSeconds (s : Span) : Nat := s.nanos / nanosPerSecond

def subsecondNanos (s : Span) : Nat := s.nanos % nanosPerSecond

def isZero (s : Span) : Bool := s.nanos = 0

/-- What is left of `s` after `t`, if `t` is no longer. -/
def minus? (s t : Span) : Option Span :=
  if t.nanos ≤ s.nanos then some ⟨s.nanos - t.nanos⟩ else none

theorem minus?_eq_none_iff {s t : Span} : s.minus? t = none ↔ s.nanos < t.nanos := by
  simp [minus?]

end Span

namespace Instant

/-- Whether the clock shows a sixty-first second. Nothing but nanoseconds counted on past the second
says so. -/
def inLeapSecond (t : Instant) : Bool := t.nanos ≥ nanosPerSecond

def secondOfDay (t : Instant) : Int := t.seconds % 86400

/-- The signed number of nanoseconds from `start` to `t`. A leap second that one of them is in
counts once the other lies on the far side of it in the day. -/
def nanosSince (t start : Instant) : Int :=
  let leap : Int :=
    if start.secondOfDay < t.secondOfDay then if start.inLeapSecond then 1 else 0
    else if t.secondOfDay < start.secondOfDay then if t.inLeapSecond then -1 else 0
    else 0
  (t.seconds - start.seconds + leap) * nanosPerSecond + (t.nanos - start.nanos)

/-- The span from `start` to `t`, if `t` is not earlier. -/
def since? (t start : Instant) : Option Span :=
  let n := t.nanosSince start
  if 0 ≤ n then some ⟨n.toNat⟩ else none

/-- Away from leap seconds an instant is a whole number of nanoseconds. -/
theorem nanosSince_eq {t start : Instant} (ht : t.inLeapSecond = false)
    (hs : start.inLeapSecond = false) :
    t.nanosSince start =
      (t.seconds * nanosPerSecond + t.nanos) - (start.seconds * nanosPerSecond + start.nanos) := by
  simp only [nanosSince, ht, hs, Bool.false_eq_true, if_false, ite_self, nanosPerSecond]
  omega

/-- The instant a span later. Leaving a leap second puts it into the count of seconds. -/
def plus (t : Instant) (s : Span) : Instant :=
  if t.inLeapSecond && t.nanos + s.nanos < 2 * nanosPerSecond then ⟨t.seconds, t.nanos + s.nanos⟩
  else
    let n := t.nanos % nanosPerSecond + s.nanos
    ⟨t.seconds + n / nanosPerSecond, n % nanosPerSecond⟩

end Instant
end Quorum
