import Quorum.Integer
import Quorum.Json.Printer
import Quorum.Json.Reader
import Quorum.Validation
import Quorum.Wire.Digest
/-!
# Tasks from run parameters

A run asks for approval by three parameters: the approvers, how many must approve (one, unless it
says otherwise) and a description. Approvers are a list of names, or a text that holds one as JSON;
`group:` in front of a name makes it a group. Other parameters are ignored, and of a repeated
parameter the last one counts.
-/
namespace Quorum

/-- A parameter is given as a text or as a list of texts. -/
inductive ParamValue
  | text (s : String)
  | list (ss : List String)
deriving DecidableEq, Repr

structure Param where
  name : String
  value : ParamValue
deriving DecidableEq, Repr

/-- What the parameters of a run say about its task. -/
structure TaskParams where
  approvers : List Approver
  required : Int := 1
  description : Option String := none
deriving DecidableEq, Repr

namespace TaskParams

/-- What is wrong with one item of the approver list. -/
inductive ItemError
  | emptyName
  | blankAtColon (raw : String)
  | emptyGroup (raw : String)
  | colonInGroup (group : String)
  | spaceInGroup (group : String)
  | groupObject (group : String)
  | groupNotText
  | object (compact : String)
  | notText
deriving DecidableEq, Repr

/-- The texts say how the item should have been written. A brace that stands in one of them is
written by its number. -/
def ItemError.message : ItemError → String
  | emptyName => "approver name cannot be empty"
  | blankAtColon raw =>
    s!"invalid group format '{raw}' - use 'group:groupname' format (remove spaces around colon)"
  | emptyGroup raw => s!"invalid group format '{raw}' - group name cannot be empty after 'group:'"
  | colonInGroup g => s!"group name '{g}' cannot contain colons"
  | spaceInGroup g => s!"group name '{g}' cannot contain spaces"
  | groupObject g =>
    "invalid group format \x7b\"group\":\"" ++ g ++ "\"\x7d - use 'group:" ++ g ++
      "' format instead"
  | groupNotText => "invalid group specification"
  | object j => s!"invalid object format {j} - approver must be a string, not an object"
  | notText => "invalid approver format - must be a string"

/-- What is wrong with the parameters, the first thing in their order. -/
inductive ParamError
  | approversNotList
  | approversNotJson (text : String) (fault : Json.Fault)
  | approver (index : Nat) (error : ItemError)
  | noApprovers
  | requiredNotText
  | requiredNotInteger (raw : String)
  | requiredNotPositive (n : Int)
  | descriptionNotText
deriving DecidableEq, Repr

/-- The text names the parameter, and for an approver the index of its item. A text that is no JSON
is shown whole with the place where it fails to be. -/
def ParamError.message : ParamError → String
  | approversNotList => "invalid approvers parameter: expected an array of approvers"
  | approversNotJson text fault =>
    let (line, column) := fault.position text
    s!"invalid approvers parameter: failed to parse JSON '{text}' - " ++
      s!"{fault.cause.message} at line {line} column {column}"
  | approver i e => s!"invalid approvers parameter: approvers[{i}]: {e.message}"
  | noApprovers => "no valid approvers found - at least one approver is required"
  | requiredNotText => "invalid numberOfApprovalsRequired parameter: expected a string"
  | requiredNotInteger raw =>
    s!"invalid numberOfApprovalsRequired parameter: '{raw}' is not a valid integer"
  | requiredNotPositive n =>
    s!"invalid numberOfApprovalsRequired parameter: must be greater than 0, got {n}"
  | descriptionNotText => "invalid description parameter: expected a string"

/-- A colon with a space on either side. No approver can be named like that, a user as little as a
group. -/
def hasBlankAtColon : List Char → Bool
  | ' ' :: ':' :: _ | ':' :: ' ' :: _ => true
  | _ :: cs => hasBlankAtColon cs
  | [] => false

/-- What follows `pre` in `cs`. -/
def after? (pre cs : List Char) : Option (List Char) :=
  if pre.isPrefixOf cs then some (cs.drop pre.length) else none

/-- A name as a user's or, behind the mark, a group's. Only the space is refused in the name of a
group here, so that validation can still refuse what has been read. -/
def approverOfName (raw : String) : Except ItemError Approver :=
  if Text.blank raw then .error .emptyName
  else if hasBlankAtColon raw.toList then .error (.blankAtColon raw)
  else match after? Spec.groupMark.toList raw.toList with
    | none => .ok (.user raw)
    | some cs =>
      let group := String.ofList cs
      if Text.blank group then .error (.emptyGroup raw)
      else if cs.contains ':' then .error (.colonInGroup group)
      else if cs.contains ' ' then .error (.spaceInGroup group)
      else .ok (.group group)

/-- Only texts are approvers. An object that was meant as a group is answered with the spelling that
would do. -/
def approverOfJson (item : Json) : Except ItemError Approver :=
  match item with
  | .string raw => approverOfName raw
  | .object _ =>
    match item.member? "group" with
    | some (.string g) => .error (.groupObject g)
    | some _ => .error .groupNotText
    | none => .error (.object item.compact)
  | _ => .error .notText

/-- The approvers of the items, or the first error with its index. -/
def approversOfItems (index : Nat) : List Json → Except ParamError (List Approver)
  | [] => .ok []
  | j :: js => do
    let a ← (approverOfJson j).mapError (.approver index)
    return a :: (← approversOfItems (index + 1) js)

/-- Approvers by kind and name, the first of each. -/
def dropRepeated (seen : List Approver.Key) : List Approver → List Approver
  | [] => []
  | a :: as => if a.key ∈ seen then dropRepeated seen as else a :: dropRepeated (a.key :: seen) as

/-- The items of the approver list. A text must be an array of JSON; an empty text is an empty
list. -/
def approverItems : ParamValue → Except ParamError (List Json)
  | .list ss => .ok (ss.map .string)
  | .text s =>
    if s = "" then .ok []
    else match Json.parse s with
      | .error f => .error (.approversNotJson s f)
      | .ok j => match j.sorted with
        | .array items => .ok items
        | _ => .error .approversNotList

/-- The approvers of a parameter, each once. Of items that name the same approver the first one
counts and the others are passed over. -/
def approversOf (value : ParamValue) : Except ParamError (List Approver) := do
  return dropRepeated [] (← approversOfItems 0 (← approverItems value))

/-- A count must be given as text, with blanks around it allowed, and be positive. -/
def requiredOf : ParamValue → Except ParamError Int
  | .list _ => .error .requiredNotText
  | .text raw =>
    match Text.int64? (Text.trim raw) with
    | none => .error (.requiredNotInteger raw)
    | some n => if n ≤ 0 then .error (.requiredNotPositive n) else .ok n

/-- One parameter on top of those before it. An empty description says nothing. -/
def take (soFar : TaskParams) (p : Param) : Except ParamError TaskParams :=
  if p.name = "approvers" then do return { soFar with approvers := ← approversOf p.value }
  else if p.name = "numberOfApprovalsRequired" then do
    return { soFar with required := ← requiredOf p.value }
  else if p.name = "description" then
    match p.value with
    | .list _ => .error .descriptionNotText
    | .text s => .ok (if s = "" then soFar else { soFar with description := some s })
  else .ok soFar

/-- Reads the parameters in order. Errors come up as they are met; that nobody is to approve is
found only at the end. -/
def ofParams (params : List Param) : Except ParamError TaskParams := do
  let p ← params.foldlM take { approvers := [] }
  if p.approvers.isEmpty then .error .noApprovers else return p

def runLabel : String := "tekton.dev/customRun"

def spec (p : TaskParams) : Spec := ⟨p.approvers, p.required, p.description⟩

/-- The new task of a run, labelled with the run and carrying the digest of its approvers. -/
def task (p : TaskParams) (name : String) (now : Instant) : Task :=
  let fresh := Task.new name p.spec
  { fresh with
    metadata.created := some now
    metadata.labels := fresh.metadata.labels.insert runLabel name }.withDigest
    (.ofApprovers p.approvers)

def toTask (p : TaskParams) (name : String) (now : Instant) : Except Spec.Problems Task := do
  p.spec.validateNew
  return p.task name now

end TaskParams
end Quorum
