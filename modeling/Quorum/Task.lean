import Quorum.Sorted.Map
import Quorum.Status
/-!
# Approval tasks

A task is what it asks for, what has been recorded, and metadata. Tasks are filed under their
namespace and name; every write to a stored task raises its version. Whoever acts on a task does so
as a principal.
-/
namespace Quorum

/-- Who acts: a user name with the groups the user claims to be in. -/
structure Principal where
  username : String
  groups : List String := []
deriving DecidableEq, Repr

/-- Groups are taken at the word of the request; nothing here checks them. -/
def Principal.claims (p : Principal) (group : String) : Bool := p.groups.contains group

/-- What a task goes by. Labels and annotations are kept in the order of their keys, so equal ones
are written equally. -/
structure Metadata where
  name : String := ""
  space : Option String := none
  version : Nat := 0
  labels : SortedMap String := .empty
  annotations : SortedMap String := .empty
  created : Option Instant := none
deriving DecidableEq, Repr, Inhabited

/-- What a task is filed under. A name with a slash in it can make the key of another name in
another space. -/
def Metadata.key (m : Metadata) : String :=
  match m.space with
  | some space => space ++ "/" ++ m.name
  | none => m.name

/-- The unit that is stored, judged and written: what is asked for, who voted in it, and what has
come of that. -/
structure Task where
  metadata : Metadata := {}
  spec : Spec := {}
  status : Status := {}
deriving DecidableEq, Repr, Inhabited

namespace Task

def key (t : Task) : String := t.metadata.key

/-- A task nobody has voted on. Its status shows the requirement and is pending, and the approvers
are taken as they are given. -/
def new (name : String) (spec : Spec) : Task :=
  { metadata := { name }, spec, status := .initial spec }

end Task
end Quorum
