import Quorum.Log.Pattern.Reader
import Quorum.Text.Blank
import Quorum.Text.Real
/-!
# Filter directives

A directive is a level, or a target and a span with a level for them:
`target[span{field=value}]=level`, where every part may be left out. Only whether a text is a
directive matters here. A field's value is a number or a pattern.
-/
namespace Quorum.Log.Directive

/-- The texts that are a level by themselves. No text at all is one, too. -/
def levels : List String := ["", "error", "warn", "info", "debug", "trace", "off"]

/-- A level is a name in either case, or a number from zero to five. -/
def isLevel (cs : List Char) : Bool :=
  levels.contains (String.ofList (cs.map Char.toLower)) || isNumber (cs.dropWhile (· = '+') )
where
  isNumber (ds : List Char) : Bool :=
    !ds.isEmpty && ds.all Char.isDigit && cs.length ≤ ds.length + 1 &&
      ds.foldl (fun n d => 10 * n + (d.toNat - 48)) 0 ≤ 5

/-- A field is a name, or a name and a value between the first equals signs. A truth value is a
pattern, too. -/
def isField (cs : List Char) : Bool :=
  match cs.dropWhile (· ≠ '=') with
  | [] => true
  | _ :: cs =>
    let value := cs.takeWhile (· ≠ '=')
    Text.isReal value || Pattern.isValid value

/-- What fits into the first `n` octets. -/
def takeOctets (n : Nat) : List Char → List Char
  | [] => []
  | c :: cs => if c.utf8Size ≤ n then c :: takeOctets (n - c.utf8Size) cs else []

/-- What does not begin in the first `n` octets. -/
def dropOctets (n : Nat) : List Char → List Char
  | [] => []
  | c :: cs => if n = 0 then c :: cs else dropOctets (n - c.utf8Size) cs

/-- The part of the text from `first` up to `last`, in octets. -/
def part (text : List Char) (first last : Nat) : List Char :=
  takeOctets (last - first) (dropOctets first text)

/-- What has been read of a directive, with the place where the current part starts. -/
inductive State
  | start
  | name
  | span
  | field (first : Nat)
  | fields
  | target
  | level (first : Nat)
  | complete
deriving DecidableEq, Repr

/-- Whether the part of the text from `first` up to `last` is a field with a name. -/
def endsField (text : List Char) (first last : Nat) : Bool :=
  let field := part text first last
  !field.isEmpty && isField field

/-- The state after one more character, in front of which there are `i` octets. -/
def step (text : List Char) (i : Nat) : State → Char → Option State
  | .start, c =>
    if c = '[' then some .span
    else if c = '-' || c = ':' || c = '_' || Text.isAlphanumeric c then some .name
    else none
  | .name, c =>
    some (if c = '=' then .level (i + 1) else if c = '[' then .span
      else if c = ',' then .complete else .name)
  | .target, c => if c = '=' then some (.level (i + 1)) else none
  | .span, c =>
    some (if c = ']' then .target else if c = '\x7b' then .field (i + 1) else .span)
  | .field first, c =>
    if c = '\x7d' then if endsField text first i then some .fields else none
    else if c = ',' then if endsField text first i then some (.field (i + 1)) else none
    else some (.field first)
  | .fields, c => if c = ']' then some .target else none
  | .level first, c =>
    if c = ',' then if isLevel (part text first i) then some .complete else none
    else some (.level first)
  | .complete, _ => none

/-- Takes the characters of a directive one by one, each with its position in octets, until one of
them does not fit. -/
def run (text : List Char) : State → Nat → List Char → Option State
  | s, _, [] => some s
  | s, i, c :: cs => (step text i s c).bind fun s => run text s (i + c.utf8Size) cs

/-- Whether a text is a directive. Blanks around it do not end it, but they belong to its parts. -/
def isValid (text : String) : Bool :=
  let cs := text.toList
  match run cs .start 0 (Text.trimRight (Text.trimLeft cs)) with
  | some .name | some .target | some .complete => true
  | some (.level first) => isLevel (dropOctets first cs)
  | _ => false

/-- Whether a text is empty or a list of directives between commas. -/
def isValidList (text : String) : Bool := text = "" || (text.splitOn ",").all isValid

end Quorum.Log.Directive
