import Quorum.FileTree
import Quorum.Settings.Environment
import Quorum.Settings.Problem
import Quorum.Toml.Reader
/-!
# Loading settings

Settings come from the defaults, a file laid over them, and environment variables for what the file
leaves open. A file can also be read on its own, without defaults beneath it and without the
environment.
-/
namespace Quorum

/-- What is found at the path of a file. -/
abbrev FileContent := Except FileError ByteArray

inductive ReadError
  | file (cause : FileError)
  | notText
deriving DecidableEq, Repr

def ReadError.message : ReadError → String
  | file cause => cause.message
  | notText => "stream did not contain valid UTF-8"

def FileContent.text (file : FileContent) : Except ReadError String := do
  match String.fromUTF8? (← file.mapError .file) with
  | some s => return s
  | none => throw .notText

namespace Settings

/-- Which document has no settings in it. Of the three only the file has a path to be named by. -/
inductive Document
  | defaults
  | file
  | merged
deriving DecidableEq, Repr

inductive LoadError
  | unreadable (cause : ReadError)
  | tooLarge (size : Nat)
  | malformed (document : Document)
  | problem (p : Problem)
deriving DecidableEq, Repr

def largestFile : Nat := 1048576

/-- How a document is called, given the path of the file. -/
def Document.name (path : String) : Document → String
  | defaults => "<embedded defaults>"
  | file => path
  | merged => "<merged config>"

namespace LoadError

/-- The field of a validation error: the file itself, if it is too large. -/
def field? (path : String) : LoadError → Option String
  | tooLarge _ => some path
  | problem p => some p.field
  | _ => none

/-- The text of the error, with the path that the file was asked for under. -/
def message (path : String) : LoadError → String
  | unreadable cause => s!"Failed to read config file at {path}: {cause.message}"
  | tooLarge size =>
    s!"Validation error in field '{path}': config file is {size} bytes, " ++
      s!"exceeding the {largestFile} byte limit"
  | malformed d => s!"Failed to parse config file at {d.name path}"
  | problem p => s!"Validation error in field '{p.field}': {p.message}"

end LoadError

/-- The text of a settings file, which is bounded in size. -/
def textOf (file : FileContent) : Except LoadError String := do
  let text ← file.text.mapError .unreadable
  if largestFile < text.utf8ByteSize then throw (.tooLarge text.utf8ByteSize) else return text

/-- The tree of the text of a document, in which tables may stand for moments if `revealing`. -/
def treeOfText (document : Document) (revealing : Bool) (text : String) :
    Except LoadError Toml.Value :=
  match Toml.parse? revealing text with
  | some tree => .ok tree
  | none => .error (.malformed document)

/-- The tree of a settings file, or why there is none. -/
def treeOf (revealing : Bool) (file : FileContent) : Except LoadError Toml.Value := do
  treeOfText .file revealing (← textOf file)

/-- Settings that have no problem, unchanged. Validation never repairs anything. -/
def validate (s : Settings) : Except LoadError Settings :=
  match s.problem? with
  | some p => .error (.problem p)
  | none => .ok s

/-- The settings of a merged tree, in which a date or time is text. -/
def ofTree? (tree : Toml.Value) : Option Settings := (decoder.ofJson (tree.toJson .string)).toOption

/-- Settings with the layers that their values came from, and whether a file was among these. -/
structure Loaded where
  settings : Settings
  sources : Sources
  fromFile : Bool

/-- The defaults, as the settings file that the program carries. -/
def defaultsText : String := "\n".intercalate
  ["# Tollgate embedded defaults.",
    "#",
    "# Every key here can be overridden by a config file or, when no file sets",
    "# it, by the matching TOLLGATE_* environment variable.",
    "",
    "[approval]",
    "# Seconds a task may stay pending before it is rejected. 0 disables.",
    "default_timeout_secs = 3600",
    "",
    "[client]",
    "# Re-read and re-admit attempts after a version conflict.",
    "max_conflict_retries = 5",
    "",
    "[logging]",
    "level = \"info\"",
    "format = \"compact\"",
    "directives = []",
    ""]

/-- The defaults with a file laid over them. A file that is not there is passed over. -/
def layers (file : Option FileContent) : Except LoadError (Layered × Bool) := do
  let base := Layered.ofTree .defaults "" (← treeOfText .defaults true defaultsText)
  match file with
  | none | some (.error .missing) => return (base, false)
  | some content => return (base.merge .file "" (← treeOf true content), true)

/-- Settings from all layers. The environment speaks last but only for what no file has set; then
the tree as a whole is read, and what it says is validated. -/
def load (file : Option FileContent) (env : Environment) : Except LoadError Loaded := do
  let (layered, fromFile) ← layers file
  let layered := env.fillIn layered
  match ofTree? layered.tree with
  | some s => return { settings := ← s.validate, sources := layered.sources, fromFile }
  | none => throw (.malformed .merged)

/-- How a date or time reads in a file on its own: as a table of its own kind. -/
def ofMoment (text : String) : Json := .object [("date-time", .string text)]

/-- At most `n` items of the list at a key. A section may be given as the list of its fields, and
what follows the last field does not count. -/
def limitItems (key : String) (n : Nat) : String × Json → String × Json
  | (k, .array items) => (k, .array (if k = key then items.take n else items))
  | member => member

/-- The document with each section, where it is a list, cut off behind its last field. -/
def sectionsOf : Json → Json
  | .object members => .object <|
      members.map fun m =>
        limitItems loggingKey 3 (limitItems clientKey 1 (limitItems approvalKey 1 m))
  | j => j

/-- Settings from a file alone. What the file leaves out has the defaults of the fields and not
those of the embedded document. -/
def loadAlone (file : FileContent) : Except LoadError Settings := do
  match decoder.ofJson (sectionsOf ((← treeOf false file).toJson ofMoment)) with
  | .ok s => s.validate
  | .error _ => throw (.malformed .file)

end Settings
end Quorum
