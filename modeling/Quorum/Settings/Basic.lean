import Quorum.Json.Encode
import Quorum.Json.Record
import Quorum.Toml.Basic
/-!
# Settings

What an installation may set: how long a task may stay pending, how often a vote is retried, and
how the program logs. Everything has a default, down to the single field.
-/
namespace Quorum
open Json Fields

namespace Settings

/-- What is set about tasks. The limit holds for passes over all tasks; a single task cannot ask for
another one. -/
structure Approval where
  /-- Seconds until a pending task is rejected; zero means never. -/
  timeout : Nat := 3600
deriving DecidableEq, Repr, Inhabited

/-- What is set about casting votes. The number of retries is only what a vote falls back on that
asks for no number of its own. -/
structure Client where
  retries : Nat := 5
deriving DecidableEq, Repr, Inhabited

/-- What is set about the log. Level and format are kept as text, and checked when settings are
validated. -/
structure Logging where
  level : String := "info"
  format : String := "compact"
  directives : List String := []
deriving DecidableEq, Repr, Inhabited

end Settings

/-- All that can be set, section by section. Sections and fields that a document leaves out have
their defaults, and those it has beyond these are passed over. -/
structure Settings where
  approval : Settings.Approval := {}
  client : Settings.Client := {}
  logging : Settings.Logging := {}
deriving DecidableEq, Repr, Inhabited

namespace Settings

/-- The names of sections and fields in files. The sources of values are recorded under them. -/
def approvalKey : String := "approval"
def clientKey : String := "client"
def loggingKey : String := "logging"
def timeoutKey : String := "default_timeout_secs"
def retriesKey : String := "max_conflict_retries"
def levelKey : String := "level"
def formatKey : String := "format"
def directivesKey : String := "directives"

namespace Approval

def toJson (a : Approval) : Json := ofFields [field timeoutKey (.ofNat a.timeout)]

def decoder : Decoder Approval :=
  .record "ApprovalSection" <|
    Approval.mk <$> withDefault [timeoutKey] ({} : Approval).timeout .nat64

end Approval

namespace Client

def toJson (c : Client) : Json := ofFields [field retriesKey (.ofNat c.retries)]

def decoder : Decoder Client :=
  .record "ClientSection" <| Client.mk <$> withDefault [retriesKey] ({} : Client).retries .nat32

end Client

namespace Logging

def toJson (l : Logging) : Json :=
  ofFields
    [field levelKey (.string l.level), field formatKey (.string l.format),
      field directivesKey (ofList .string l.directives)]

def decoder : Decoder Logging :=
  let usual : Logging := {}
  .record "LoggingSection" <|
    Logging.mk <$> withDefault [levelKey] usual.level .string <*>
      withDefault [formatKey] usual.format .string <*>
      withDefault [directivesKey] usual.directives (.list .string)

end Logging

def toJson (s : Settings) : Json :=
  ofFields
    [field approvalKey s.approval.toJson, field clientKey s.client.toJson,
      field loggingKey s.logging.toJson]

def decoder : Decoder Settings :=
  .record "Config" <|
    Settings.mk <$> withDefault [approvalKey] {} Approval.decoder <*>
      withDefault [clientKey] {} Client.decoder <*>
      withDefault [loggingKey] {} Logging.decoder

/-- The settings as a configuration tree, with the members of tables in key order as everywhere in
trees. -/
def toTree (s : Settings) : Toml.Value :=
  .table
    [(approvalKey, .table [(timeoutKey, .integer s.approval.timeout)]),
      (clientKey, .table [(retriesKey, .integer s.client.retries)]),
      (loggingKey, .table
        [(directivesKey, .array (s.logging.directives.map .string)),
          (formatKey, .string s.logging.format), (levelKey, .string s.logging.level)])]

end Settings
end Quorum
