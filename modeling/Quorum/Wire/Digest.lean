import Quorum.Digest
import Quorum.Json.Decoder
import Quorum.Task
/-!
# Digests in tasks

A task carries the digest of the approver list it was last counted by among its annotations.
-/
namespace Quorum
open Json

namespace Digest

def toJson (d : Digest) : Json := .string d.hex

def decoder : Decoder Digest := .parsed "a string" fun s => (ofHex s).mapError (·.message)

end Digest

namespace Task

/-- The annotation that holds the digest of the last count. -/
def digestKey : String := "tekton.dev/last-applied-hash"

/-- The digest on record, if there is one that can be read. -/
def digest? (t : Task) : Option Digest :=
  (t.metadata.annotations.get? digestKey).bind fun s => (Digest.ofHex s).toOption

/-- The task with a digest on record. Nothing but the annotation is changed. -/
def withDigest (t : Task) (d : Digest) : Task :=
  { t with metadata.annotations := t.metadata.annotations.insert digestKey d.hex }

end Task
end Quorum
