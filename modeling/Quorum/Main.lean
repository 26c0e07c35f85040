import Quorum.Daemon
import Quorum.Integer
import Quorum.Json.Printer
import Std.Time.DateTime.Timestamp
/-!
# The program
-/
namespace Quorum.Main

/-- What is printed to whoever asks for help, and to whoever gets the command wrong. -/
def usageText : String :=
  "Usage: tollgated [--config FILE] run --tasks FILE [--once]\n" ++
  "       tollgated [--config FILE] bootstrap --name NAME --params FILE"

/-- Why a file could not be read. -/
def fileError : IO.Error → FileError
  | .noFileOrDirectory .. => .missing
  | .inappropriateType _ code _ => if code = 21 then .directory else .notDirectory
  | .invalidArgument _ code _ => if code = 22 then .nulInPath else .nameTooLong
  | .permissionDenied .. => .denied
  | _ => .deviceFailed

/-- What is at a path. -/
def contentAt (path : String) : IO FileContent := do
  try
    return .ok (← IO.FS.readBinFile path)
  catch e => return .error (fileError e)

def environment : IO Environment := do
  let mut env : Environment := .empty
  for b in Environment.bindings do
    if let some value ← IO.getEnv b.variableName then env := env.insert b.variableName value
  return env

/-- The files that an invocation names. -/
def filesOf (i : Invocation) : List String :=
  let data := match i.command with
    | .run tasks _ => tasks
    | .bootstrap _ params => params
  i.config.toList ++ [data]

/-- Reads every input before anything is done with them, so that the rest is a function of what was
read. -/
def readFiles (paths : List String) : IO Daemon.Files := do
  let contents ← paths.mapM fun path => do return (path, ← contentAt path)
  return fun path => (contents.lookup path).getD (.error .missing)

def now : IO Instant := do
  let n := (← Std.Time.Timestamp.now).toNanosecondsSinceUnixEpoch.val
  return ⟨n.fdiv nanosPerSecond, (n.fmod nanosPerSecond).toNat⟩

/-- Waits until just behind each deadline in turn. -/
partial def finish (p : Daemon.Progress) : IO UInt32 := do
  match p with
  | .done output =>
    IO.println output.pretty
    return 0
  | .waiting _ _ delay =>
    IO.sleep (UInt32.ofNat (min (delay.nanos / 1000000 + 1000) Bounds.nat32Max))
    finish (p.resume (← now))

def report (usage : Usage) : IO UInt32 := do
  match usage with
  | .help =>
    IO.println usageText
    return 0
  | .version =>
    IO.println "tollgated 0.1.1"
    return 0
  | .wrong =>
    IO.eprintln usageText
    return 2

end Quorum.Main

open Quorum in
/-- Reads the arguments and the inputs, and hands over to the command. -/
def main (args : List String) : IO UInt32 := do
  match Invocation.ofArgs args (← IO.getEnv Invocation.configVariable) with
  | .error usage => Main.report usage
  | .ok invocation =>
    let files ← Main.readFiles (Main.filesOf invocation)
    match Daemon.start files (← Main.environment) (← Main.now) invocation with
    | .ok progress => Main.finish progress
    | .error failure =>
      IO.eprintln failure.report
      return 1
