import Quorum.Settings.Basic
import Quorum.Text.Blank
/-!
# Checking settings

Only the first problem is reported: the approval section comes before the client's, and that before
logging.
-/
namespace Quorum.Settings

/-- What makes settings unusable, with what the message shows. -/
inductive Problem
  | timeoutTooLong (seconds : Nat)
  | tooManyRetries
  | unknownLevel (level : String)
  | unknownFormat (format : String)
  | blankDirective (directive : String)
deriving DecidableEq, Repr

/-- Thirty days, in seconds. A timeout of zero is shorter than that and yet means that there is no
limit. -/
def longestTimeout : Nat := 2592000

/-- The most retries that can be set, zero being allowed. -/
def mostRetries : Nat := 100

/-- The levels that settings may name, fewer than a directive may. -/
def levels : List String := ["trace", "debug", "info", "warn", "error"]

def formats : List String := ["pretty", "compact", "json", "full"]

namespace Problem

/-- The field that is at fault, under its section. -/
def field : Problem → String
  | timeoutTooLong _ => s!"{approvalKey}.{timeoutKey}"
  | tooManyRetries => s!"{clientKey}.{retriesKey}"
  | unknownLevel _ => s!"{loggingKey}.{levelKey}"
  | unknownFormat _ => s!"{loggingKey}.{formatKey}"
  | blankDirective _ => s!"{loggingKey}.{directivesKey}"

def message : Problem → String
  | timeoutTooLong n => s!"timeout {n} exceeds the maximum of {longestTimeout} seconds"
  | tooManyRetries => s!"{retriesKey} must be at most {mostRetries}"
  | unknownLevel s =>
    s!"unsupported log level '{s}'; expected one of: " ++ ", ".intercalate levels
  | unknownFormat s =>
    s!"unsupported log format '{s}'; expected one of: " ++ ", ".intercalate formats
  | blankDirective s => s!"empty directive '{s}'"

end Problem

/-- The first problem in the order of the sections. -/
def problem? (s : Settings) : Option Problem :=
  if longestTimeout < s.approval.timeout then some (.timeoutTooLong s.approval.timeout)
  else if mostRetries < s.client.retries then some .tooManyRetries
  else if s.logging.level ∉ levels then some (.unknownLevel s.logging.level)
  else if s.logging.format ∉ formats then some (.unknownFormat s.logging.format)
  else (s.logging.directives.find? Text.blank).map .blankDirective

end Quorum.Settings
