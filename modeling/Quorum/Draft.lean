import Quorum.Wire.Digest
/-!
# Drafting tasks

A draft is a name and the parts that are added to it in order; of a part that can stand only once
the last one counts. A stamped task carries the digest of its approvers.
-/
namespace Quorum

/-- What has been said of a task so far. -/
structure Draft where
  name : String
  space : Option String := none
  approvers : List Approver := []
  required : Int := 1
  description : Option String := none
  created : Instant
deriving DecidableEq, Repr

namespace Draft

/-- The first second of 2026. Drafts that say nothing of their creation are dated by it, which keeps
them the same from run to run. -/
def epoch : Instant := ⟨1767225600, 0⟩

/-- One thing to say of a task. The name is not among them, since a draft starts with it. -/
inductive Part
  | approver (a : Approver)
  | required (n : Int)
  | description (s : String)
  | space (s : String)
  | created (t : Instant)
deriving DecidableEq, Repr

/-- A draft of which nothing is known but the name. It asks nobody and requires one approval. -/
def start (name : String) : Draft := { name, created := epoch }

/-- Approvers pile up; everything else is replaced. So the order matters among approvers and among
parts of one kind, and nowhere else. -/
def add (d : Draft) : Part → Draft
  | .approver a => { d with approvers := d.approvers ++ [a] }
  | .required n => { d with required := n }
  | .description s => { d with description := some s }
  | .space s => { d with space := some s }
  | .created t => { d with created := t }

/-- The draft that the parts make in their order. -/
def ofParts (name : String) (parts : List Part) : Draft := parts.foldl add (start name)

def spec (d : Draft) : Spec := ⟨d.approvers, d.required, d.description⟩

/-- The task that has been drafted, with votes and status as they are before anybody votes or
counts. -/
def task (d : Draft) : Task :=
  { Task.new d.name d.spec with
    metadata := { name := d.name, space := d.space, created := some d.created } }

/-- The task as if its approvers had been counted already, so that the next pass does not look at
them. -/
def stampedTask (d : Draft) : Task := d.task.withDigest (.ofApprovers d.approvers)

end Draft
end Quorum
