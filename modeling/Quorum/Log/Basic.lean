import Quorum.Settings.Basic
/-!
# How the program logs

A configuration says what is logged, in which format and where to. Logging to files turns colours
off.
-/
namespace Quorum
open Json Fields

namespace Log

/-- How the lines of a log are laid out. -/
inductive Format
  | pretty
  | compact
  | json
  | full
deriving DecidableEq, Repr, Inhabited

namespace Format

def text : Format → String
  | pretty => "pretty"
  | compact => "compact"
  | json => "json"
  | full => "full"

def all : List Format := [pretty, compact, json, full]

/-- The format of that name. Names are matched as they stand. -/
def ofText? (s : String) : Option Format := all.find? (·.text = s)

/-- What is said of a name that is no format. -/
def unknownMessage (name : String) : String :=
  s!"Configuration error: unknown log format '{name}'"

def toJson (f : Format) : Json := .string f.text

def decoder : Decoder Format := .variant (all.map fun f => .plain f.text f)

end Format

/-- Where the lines of a log go. -/
inductive Target
  | stdout
  | stderr
  /-- Files in a directory, a new one each day. -/
  | file (directory : String)
deriving DecidableEq, Repr, Inhabited

namespace Target

def toJson : Target → Json
  | stdout => .string "stdout"
  | stderr => .string "stderr"
  | file directory => .object [("file", .string directory)]

def decoder : Decoder Target :=
  .variant
    [.plain "stdout" stdout, .plain "stderr" stderr,
      .holding "file" ((Decoder.parsed "path string" .ok).map file)]

end Target

/-- How the program logs. Settings speak to the level, the format and the directives only;
everything else has its usual value then. -/
structure Config where
  level : String := "info"
  format : Format := .compact
  target : Target := .stderr
  filePrefix : String := "tollgate"
  timestamps : Bool := true
  spanEvents : Bool := false
  ansi : Bool := true
  directives : List String := []
deriving DecidableEq, Repr, Inhabited

namespace Config

/-- Logging to files of a directory, whose names start with `name`. -/
def toFiles (c : Config) (directory name : String) : Config :=
  { c with target := .file directory, filePrefix := name, ansi := false }

/-- Directives are kept in the order they are added in. -/
def addDirective (c : Config) (directive : String) : Config :=
  { c with directives := c.directives ++ [directive] }

/-- An unknown format falls back to the usual one. -/
def ofSettings (s : Settings.Logging) : Config :=
  { level := s.level
    format := (Format.ofText? s.format).getD ({} : Config).format
    directives := s.directives }

def toJson (c : Config) : Json :=
  ofFields
    [field "level" (.string c.level), field "format" c.format.toJson,
      field "target" c.target.toJson, field "file_prefix" (.string c.filePrefix),
      field "timestamps" (.bool c.timestamps), field "span_events" (.bool c.spanEvents),
      field "ansi" (.bool c.ansi), field "directives" (ofList .string c.directives)]

def decoder : Decoder Config :=
  let usual : Config := {}
  .record "LogConfig" <|
    Config.mk <$> withDefault ["level"] usual.level .string <*>
      withDefault ["format"] usual.format Format.decoder <*>
      withDefault ["target"] usual.target Target.decoder <*>
      withDefault ["file_prefix"] usual.filePrefix .string <*>
      withDefault ["timestamps"] usual.timestamps .bool <*>
      withDefault ["span_events"] usual.spanEvents .bool <*>
      withDefault ["ansi"] usual.ansi .bool <*>
      withDefault ["directives"] usual.directives (.list .string)

end Config
end Log
end Quorum
