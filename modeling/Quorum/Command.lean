/-!
# The command line

Options may come in any order around the name of a command. An option's value follows it as the next
word, or is attached by an equals sign, or directly to a short option.
-/
namespace Quorum

inductive Command
  /-- Passes over the tasks of a file until all are settled, or a single time. -/
  | run (tasks : String) (once : Bool)
  /-- Builds a task from a file of run parameters. -/
  | bootstrap (name params : String)
deriving DecidableEq, Repr

/-- A command with the settings file that comes with it. -/
structure Invocation where
  config : Option String
  command : Command
deriving DecidableEq, Repr

/-- Why there is nothing to run. Help and version were asked for; only the last one is a mistake. -/
inductive Usage
  | help
  | version
  | wrong
deriving DecidableEq, Repr

namespace Command

/-- An option that a command knows, by its long name and possibly by a letter. -/
structure Flag where
  long : String
  short : Option Char
  takesValue : Bool := true
  /-- Whether an empty value will do. -/
  mayBeEmpty : Bool := false
deriving DecidableEq, Repr

def configFlag : Flag := { long := "config", short := some 'c' }
def tasksFlag : Flag := { long := "tasks", short := some 't' }
def onceFlag : Flag := { long := "once", short := none, takesValue := false }
def nameFlag : Flag := { long := "name", short := some 'n', mayBeEmpty := true }
def paramsFlag : Flag := { long := "params", short := some 'p' }
def helpFlag : Flag := { long := "help", short := some 'h', takesValue := false }
def versionFlag : Flag := { long := "version", short := some 'V', takesValue := false }

/-- The values given so far by the long names of their options. -/
abbrev Given := List (String × String)

/-- Takes one more option. Help and version are answered at once, whatever else is wrong; every
other option may be given once, and not without a value. -/
def Given.add (given : Given) (f : Flag) (value : String) : Except Usage Given :=
  if f = helpFlag then .error .help
  else if f = versionFlag then .error .version
  else if (given.lookup f.long).isSome then .error .wrong
  else if value = "" && f.takesValue && !f.mayBeEmpty then .error .wrong
  else .ok ((f.long, value) :: given)

/-- An option as it is written, with the value attached to it. -/
inductive Word
  | plain (text : String)
  | flag (f : Flag) (attached : Option String)
  | terminator
  | wrong
deriving DecidableEq, Repr

/-- The text behind the first equals sign. -/
def attachedLong (body : List Char) : Option String :=
  match body.dropWhile (· != '=') with
  | [] => none
  | _ :: value => some (String.ofList value)

/-- The value may follow the letter at once or behind an equals sign. -/
def attachedShort : List Char → Option String
  | [] => none
  | '=' :: value => some (String.ofList value)
  | value => some (String.ofList value)

/-- A long option refuses an attached value that it does not take; a short one acts before what is
attached to it is looked at. -/
def Word.ofText (flags : List Flag) (text : String) : Word :=
  match text.toList with
  | ['-', '-'] => .terminator
  | '-' :: '-' :: body =>
    let name := String.ofList (body.takeWhile (· != '='))
    match flags.find? (·.long = name), attachedLong body with
    | some f, some value => if f.takesValue then .flag f (some value) else .wrong
    | some f, none => .flag f none
    | none, _ => .wrong
  | '-' :: c :: rest =>
    match flags.find? (·.short = some c) with
    | some f => .flag f (attachedShort rest)
    | none => .wrong
  | _ => .plain text

/-- Whether a word can be the value of the option before it. -/
def isValue (text : String) : Bool := text = "-" || !text.startsWith "-"

/-- Reads options up to the first word that is none. That word and what follows it are left. -/
def options (flags : List Flag) (given : Given) : List String → Except Usage (Given × List String)
  | [] => .ok (given, [])
  | text :: rest =>
    match Word.ofText flags text with
    | .plain text => .ok (given, text :: rest)
    | .terminator => if rest.isEmpty then .ok (given, []) else .error .wrong
    | .wrong => .error .wrong
    | .flag f attached =>
      if f.takesValue then
        match attached, rest with
        | some value, rest =>
          match given.add f value with
          | .ok given => options flags given rest
          | .error u => .error u
        | none, value :: rest =>
          if isValue value then
            match given.add f value with
            | .ok given => options flags given rest
            | .error u => .error u
          else .error .wrong
        | none, [] => .error .wrong
      else
        match given.add f "", attached with
        | .error u, _ => .error u
        | .ok _, some _ => .error .wrong
        | .ok given, none => options flags given rest

/-- The options of a command. None of them takes a plain word. -/
def ownOptions (flags : List Flag) (args : List String) : Except Usage Given :=
  match options (configFlag :: helpFlag :: flags) [] args with
  | .ok (given, []) => .ok given
  | .ok (_, _ :: _) => .error .wrong
  | .error u => .error u

/-- The value of an option that a command cannot do without. -/
def need (given : Given) (f : Flag) : Except Usage String :=
  match given.lookup f.long with
  | some value => .ok value
  | none => .error .wrong

/-- A command with its own options, and those options. -/
def ofArgs (name : String) (args : List String) : Except Usage (Command × Given) := do
  match name with
  | "run" =>
    let given ← ownOptions [tasksFlag, onceFlag] args
    return (.run (← need given tasksFlag) (given.lookup onceFlag.long).isSome, given)
  | "bootstrap" =>
    let given ← ownOptions [nameFlag, paramsFlag] args
    return (.bootstrap (← need given nameFlag) (← need given paramsFlag), given)
  | "help" =>
    if args.isEmpty || args = ["run"] || args = ["bootstrap"] || args = ["help"] then throw .help
    else throw .wrong
  | _ => throw .wrong

end Command

/-- The environment variable that names the configuration file. -/
def Invocation.configVariable : String := "TOLLGATE_CONFIG"

/-- Reads a command line. The configuration file may be named in front of the command, behind it, or
by the environment; the last of these that does so in this order of rank decides: behind, in front,
environment. An empty variable is an error wherever it would be looked at. -/
def Invocation.ofArgs (args : List String) (fromVariable : Option String) :
    Except Usage Invocation := do
  let (front, rest) ← Command.options [Command.configFlag, Command.helpFlag, Command.versionFlag] []
    args
  match rest with
  | [] => throw .wrong
  | name :: args =>
    let (command, behind) ← Command.ofArgs name args
    let inFront := front.lookup Command.configFlag.long
    let inBack := behind.lookup Command.configFlag.long
    if fromVariable = some "" && (inFront.isNone || inBack.isNone) then throw .wrong
    return ⟨(inBack.or inFront).or fromVariable, command⟩

end Quorum
