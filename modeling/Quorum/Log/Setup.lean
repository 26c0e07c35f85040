import Quorum.FileTree
import Quorum.Log.Basic
import Quorum.Log.Directive
/-!
# Setting up logging

Logging is set up once in the life of a process. The filter is checked first; then the directory of
a log file is made; and only then does it show that logging is set up already.
-/
namespace Quorum.Log

/-- What keeps logging from being set up. -/
inductive SetupError
  | badFilter
  | noDirectory
  | alreadySetUp
deriving DecidableEq, Repr

/-- The files there are, and whether logging is set up. -/
structure Host where
  tree : FileTree Unit := {}
  installed : Bool := false

/-- The path of a log file without the date that its name ends in. -/
def logFile (directory filePrefix : String) : String :=
  if directory = "" || filePrefix.startsWith "/" then filePrefix
  else directory ++ "/" ++ filePrefix

/-- Whether the level and all directives can be read. -/
def Config.filterIsValid (c : Config) : Bool :=
  Directive.isValidList c.level && c.directives.all Directive.isValid

/-- Only the first set-up of a process takes hold. -/
def install (h : Host) : Except SetupError Unit × Host :=
  if h.installed then (.error .alreadySetUp, h) else (.ok (), { h with installed := true })

/-- The result of setting up logging, and what the host is afterwards. The name of a log file may
lead through directories of its own, which are made, too. -/
def setUp (c : Config) (h : Host) : Except SetupError Unit × Host :=
  if !c.filterIsValid then (.error .badFilter, h)
  else match c.target with
    | .file directory =>
      match h.tree.makeDirectory directory with
      | (.error _, tree) => (.error .noDirectory, { h with tree })
      | (.ok (), tree) =>
        install { h with tree := (tree.makeParents (logFile directory c.filePrefix)).2 }
    | _ => install h

end Quorum.Log
