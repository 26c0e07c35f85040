import Quorum.Command
import Quorum.Log.Setup
import Quorum.Pass
import Quorum.Settings.Load
import Quorum.Wire.Params
import Quorum.Wire.Task
/-!
# The daemon

It loads its settings, sets up logging, and runs one command. What it needs from outside is handed
in: the contents of files, the environment and the time. A run that has to wait for a deadline
stops there, to be resumed when the deadline has passed.
-/
namespace Quorum

/-- What went wrong, and what that came from, the nearest cause first. -/
structure Failure where
  message : String
  causes : List String := []
deriving DecidableEq, Repr

namespace Failure

/-- A cause, the further lines of it indented like the first one. -/
def indented (first : String) (others : String) (cause : String) : String :=
  first ++ ("\n" ++ others).intercalate (cause.splitOn "\n")

/-- Numbers of causes are set flush right, so that the causes line up. -/
def padLeft (width : Nat) (s : String) : String :=
  String.ofList (List.replicate (width - s.length) ' ') ++ s

/-- Several causes are numbered from zero. -/
def report (f : Failure) : String :=
  let causes := match f.causes with
    | [cause] => [indented "    " "    " cause]
    | causes => causes.zipIdx.map fun (cause, i) =>
      indented (padLeft 5 (toString i) ++ ": ") "       " cause
  "Error: " ++ f.message ++
    if causes.isEmpty then "" else "\n\nCaused by:\n" ++ "\n".intercalate causes

end Failure

namespace Daemon

/-- The contents of files by path. The files that a command names are read beforehand, so that the
command itself is a function. -/
abbrev Files := String → FileContent

/-- The failure to load the settings. A file that cannot be read adds a cause of its own behind the
one that names it. -/
def configFailure (path : String) (e : Settings.LoadError) : Failure :=
  let own := match e with
    | .unreadable cause => [cause.message]
    | _ => []
  ⟨"failed to load configuration", e.message path :: own⟩

/-- The settings that a command runs with, from all layers. Logging is set up from them at once, so
a directive that cannot be read stops the command before it has done anything. -/
def loadSettings (files : Files) (env : Environment) (config : Option String) :
    Except Failure Settings := do
  let loaded ← (Settings.load (config.map files) env).mapError (configFailure (config.getD ""))
  if (Log.Config.ofSettings loaded.settings.logging).filterIsValid then return loaded.settings
  else throw ⟨"failed to set up logging", ["Configuration error: invalid filter directive"]⟩

/-- The text of an input file. -/
def readText (files : Files) (path : String) : Except Failure String :=
  (files path).text.mapError fun e => ⟨s!"failed to read {path}", [e.message]⟩

/-- What an input file holds, or where it stops making sense. -/
def decodeText (path text : String) (d : Decoder α) : Except Failure α :=
  (d.ofText text).mapError fun e => ⟨s!"failed to parse {path}", [e.message]⟩

/-- The tasks of a file in a fresh store. They are created there, so each starts at its first
version and a key that comes twice is an error. -/
def storeOf (tasks : List Task) : Except Failure Store :=
  let add (s : Store) (t : Task) := (s.create t).map (·.2)
  (tasks.foldlM add Store.empty).mapError fun e => ⟨e.message, []⟩

/-- Where a run stands. -/
inductive Progress
  | done (output : Json)
  | waiting (store : Store) (limit : Span) (delay : Span)

/-- When the earliest of the tasks wants to be looked at again. One whose pass failed wants it at
once. -/
def nextLook (next : Option Span) : Except StoreError Pass.Report → Option Span
  | .error _ => some .zero
  | .ok report =>
    match report.recheck with
    | none => next
    | some after => some ⟨min after.nanos ((next.map (·.nanos)).getD after.nanos)⟩

/-- One pass over all tasks. The run is done when no task waits for a deadline, or when it was to
pass only once. -/
def pass (store : Store) (limit : Span) (once : Bool) (now : Instant) : Progress :=
  let (reports, store) := (Pass.runAll now limit).run store
  match (reports.map (·.2)).foldl nextLook none with
  | some delay => if once then finish store else .waiting store limit delay
  | none => finish store
where
  finish (store : Store) : Progress := .done (Json.ofList Task.toJson store.list)

/-- Builds the task of a run and shows it. Nothing is stored. -/
def bootstrap (name : String) (params : List Param) (now : Instant) : Except Failure Json := do
  let p ← (TaskParams.ofParams params).mapError fun e => ⟨e.message, []⟩
  let t ← (p.toTask name now).mapError fun ps => ⟨s!"validation failed: {ps.text}", [ps.text]⟩
  return t.toJson

/-- What a command does before it has to wait for anything. -/
def start (files : Files) (env : Environment) (now : Instant) (i : Invocation) :
    Except Failure Progress := do
  let settings ← loadSettings files env i.config
  match i.command with
  | .run path once =>
    let tasks ← decodeText path (← readText files path) (.list Task.decoder)
    return pass (← storeOf tasks) (.ofSeconds settings.approval.timeout) once now
  | .bootstrap name path =>
    let params ← decodeText path (← readText files path) (.list Param.decoder)
    return .done (← bootstrap name params now)

/-- Goes on after waiting. A command that is done stays done. -/
def Progress.resume (now : Instant) : Progress → Progress
  | .done output => .done output
  | .waiting store limit _ => pass store limit false now

end Daemon
end Quorum
