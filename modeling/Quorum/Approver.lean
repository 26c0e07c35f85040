import Quorum.Sorted.Names
import Quorum.Vote
/-!
# Approvers

An approver is a single user, or a group that may keep a record for each member who voted.
Approvers are told apart by kind and name together. What a task asks for is a list of them and how
many approvals it takes.
-/
namespace Quorum

/-- One person's record in a group. It holds no message: what is said with a vote in a group is kept
on the entry of the group. -/
structure Member where
  name : String
  vote : Vote
deriving DecidableEq, Repr

namespace Approver

/-- What an approver entry stands for. Text that names neither kind is kept as it is, for the
problem that validation reports about it. -/
inductive Kind
  | user
  | group
  | other (text : String)
deriving DecidableEq, Repr, Inhabited

namespace Kind

def text : Kind → String
  | user => "User"
  | group => "Group"
  | other s => s

/-- No text at all means a user. Every other text that names neither kind is kept, and validation
reports it. -/
def ofText (s : String) : Kind :=
  if s = "User" ∨ s = "" then user
  else if s = "Group" then group
  else other s

/-- Users come before groups and groups before everything else. -/
def rank : Kind → Nat × String
  | user => (0, "")
  | group => (1, "")
  | other s => (2, s)

theorem rank_injective {k l : Kind} (h : k.rank = l.rank) : k = l := by
  cases k <;> cases l <;> simp_all [rank]

end Kind

/-- What tells approvers apart. A user and a group of one name are two approvers, and two entries
that share a key repeat each other. -/
structure Key where
  kind : Kind
  name : String
deriving DecidableEq, Repr

namespace Key

/-- By kind, then by name. Kinds that are unknown come last, and among themselves by their text. -/
def compare (a b : Key) : Ordering :=
  (Ord.compare a.kind.rank.1 b.kind.rank.1).then <|
    (Ord.compare a.kind.rank.2 b.kind.rank.2).then (Ord.compare a.name b.name)

/-- The order that lists of approvers are indexed in. -/
def le (a b : Key) : Bool := (a.compare b).isLE

end Key
end Approver

/-- An entry of a specification: the vote that it holds, the message given with it, and for a group
the records of its members. -/
structure Approver where
  name : String
  kind : Approver.Kind := .user
  vote : Vote := .pending
  message : Option String := none
  members : List Member := []
deriving DecidableEq, Repr

namespace Approver

def user (name : String) : Approver := { name }

def group (name : String) : Approver := { name, kind := .group }

def key (a : Approver) : Key := ⟨a.kind, a.name⟩

def isGroup (a : Approver) : Bool := a.kind = .group

/-- The first record of that name. Valid groups have at most one. -/
def member? (a : Approver) (name : String) : Option Member := a.members.find? (·.name = name)

/-- Whether the entry is reported at all: it is once it, or anyone on its record, has decided. -/
def hasDecision (a : Approver) : Bool := a.vote.isDecided || a.members.any (·.vote.isDecided)

end Approver

/-- What a task asks for: whose votes are counted, how many approvals it takes, and what it is
about. The votes are cast in here too, so that casting one is an edit of the specification. -/
structure Spec where
  approvers : List Approver := []
  required : Int := 0
  description : Option String := none
deriving DecidableEq, Repr, Inhabited

namespace Spec

/-- The first approver of a kind and name. A specification that validation accepts has at most
one. -/
def approver? (s : Spec) (kind : Approver.Kind) (name : String) : Option Approver :=
  s.approvers.find? fun a => a.kind = kind ∧ a.name = name

/-- The names that a status lists, each once, whatever kinds of entries they are in. -/
def approverNames (s : Spec) : NameSet := .ofList (s.approvers.map (·.name))

end Spec
end Quorum
