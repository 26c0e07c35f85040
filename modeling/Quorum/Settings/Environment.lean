import Quorum.Integer
import Quorum.Settings.Basic
import Quorum.Settings.Layer
import Quorum.Text.Blank
/-!
# Settings from environment variables

Variables fill in for fields that no file has set; a file always wins.
-/
namespace Quorum

/-- Environment variables by name. Whatever else is set in it is not looked at. -/
abbrev Environment := SortedMap String

namespace Environment

/-- A variable and the field it sets. Four of the five fields have one; there is none for a list. -/
structure Binding where
  variableName : String
  sectionKey : String
  fieldKey : String
  /-- Whether text that reads as an integer is taken as one. -/
  numeric : Bool
deriving DecidableEq, Repr

def Binding.path (b : Binding) : String := b.sectionKey ++ "." ++ b.fieldKey

def bindings : List Binding :=
  [⟨"TOLLGATE_DEFAULT_TIMEOUT_SECS", Settings.approvalKey, Settings.timeoutKey, true⟩,
    ⟨"TOLLGATE_MAX_CONFLICT_RETRIES", Settings.clientKey, Settings.retriesKey, true⟩,
    ⟨"TOLLGATE_LOG_LEVEL", Settings.loggingKey, Settings.levelKey, false⟩,
    ⟨"TOLLGATE_LOG_FORMAT", Settings.loggingKey, Settings.formatKey, false⟩]

/-- Blanks around a number do not count. Text that is no number stays text and is found out when
the settings are decoded. -/
def Binding.valueOf (b : Binding) (text : String) : Toml.Value :=
  match if b.numeric then Text.int64? (Text.trim text) else none with
  | some n => .integer n
  | none => .string text

/-- Whether the field still has its default, or no value at all. -/
def Binding.isOpen (b : Binding) (sources : Sources) : Bool :=
  match sources.get? b.path with
  | none | some .defaults => true
  | some _ => false

/-- Puts a value into a section of a tree. A section that is not there is made; one that is no
table cannot hold it. -/
def put (sectionKey fieldKey : String) (v : Toml.Value) : Toml.Value → Toml.Value
  | .table members =>
    match members.lookup sectionKey with
    | none => .table (putEntry sectionKey (.table [(fieldKey, v)]) members)
    | some (.table fields) =>
      .table (putEntry sectionKey (.table (putEntry fieldKey v fields)) members)
    | some _ => .table members
  | tree => tree

def Binding.apply (b : Binding) (text : String) (l : Layered) : Layered :=
  ⟨put b.sectionKey b.fieldKey (b.valueOf text) l.tree, l.sources.insert b.path .environment⟩

/-- The bindings whose variable is set and whose field is open. -/
def applicable (env : Environment) (sources : Sources) : List (Binding × String) :=
  bindings.filterMap fun b =>
    if b.isOpen sources then (env.get? b.variableName).map (b, ·) else none

/-- The tree with the fields filled in. Which fields are open is settled once at the start, so no
variable can keep another one out. -/
def fillIn (env : Environment) (l : Layered) : Layered :=
  (env.applicable l.sources).foldl (fun l (b, text) => b.apply text l) l

end Environment
end Quorum
