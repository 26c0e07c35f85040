/-!
# Faults of JSON texts

A fault is where a text stops being JSON and why. It remembers how many octets of the text lie
behind it, so no step of a reader has to count what it has passed.
-/
namespace Quorum.Json

/-- What breaks a text off as JSON. The wordings are kept apart from the places, which are counted
out of what is left of the text. -/
inductive Cause
  | endInValue | endInList | endInObject | endInString
  | missingColon | missingListSeparator | missingObjectSeparator
  | badIdentifier | missingValue
  | badEscape | badNumber | numberTooLarge | controlCharacter
  | keyNotString | loneSurrogate | cutSurrogate
  | trailingComma | trailingCharacters | tooDeep
deriving DecidableEq, Repr

/-- A cause with what was left of the text where it was found, from which the line and the column
are reckoned. -/
structure Fault where
  cause : Cause
  /-- How many octets of the text lie behind the fault. -/
  left : Nat
deriving DecidableEq, Repr

def Cause.message : Cause → String
  | .endInValue => "EOF while parsing a value"
  | .endInList => "EOF while parsing a list"
  | .endInObject => "EOF while parsing an object"
  | .endInString => "EOF while parsing a string"
  | .missingColon => "expected `:`"
  | .missingListSeparator => "expected `,` or `]`"
  | .missingObjectSeparator => "expected `,` or `\x7d`"
  | .badIdentifier => "expected ident"
  | .missingValue => "expected value"
  | .badEscape => "invalid escape"
  | .badNumber => "invalid number"
  | .numberTooLarge => "number out of range"
  | .controlCharacter => "control character (\\u0000-\\u001F) found while parsing a string"
  | .keyNotString => "key must be a string"
  | .loneSurrogate => "lone leading surrogate in hex escape"
  | .cutSurrogate => "unexpected end of hex escape"
  | .trailingComma => "trailing comma"
  | .trailingCharacters => "trailing characters"
  | .tooDeep => "recursion limit exceeded"

/-- Whether the text ended too early, as opposed to going on wrongly. -/
def Cause.atEnd : Cause → Bool
  | .endInValue | .endInList | .endInObject | .endInString => true
  | _ => false

def octetCount (cs : List Char) : Nat := cs.foldl (fun n c => n + c.utf8Size) 0

/-- A fault found in what has been read. -/
def Fault.before (cause : Cause) (rest : List Char) : Fault := ⟨cause, octetCount rest⟩

/-- A fault at the octet that comes next. -/
def Fault.ahead (cause : Cause) (rest : List Char) : Fault := ⟨cause, octetCount rest - 1⟩

/-- Line and column of a fault: the column counts the octets of its line up to the fault. -/
def Fault.position (f : Fault) (text : String) : Nat × Nat :=
  let octets := text.toUTF8.toList
  let read := octets.take (octets.length - f.left)
  let line := read.reverse.takeWhile (· != 10)
  (1 + read.count 10, line.length)

end Quorum.Json
