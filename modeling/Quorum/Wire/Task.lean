import Quorum.Task
import Quorum.Wire.Status
/-!
# Tasks and principals as JSON
-/
namespace Quorum
open Json Fields

namespace Principal

def toJson (p : Principal) : Json :=
  ofFields [field "username" (.string p.username), field "groups" (ofList .string p.groups)]

def decoder : Decoder Principal :=
  .record "Principal" <|
    Principal.mk <$> required "username" .string <*> withDefault ["groups"] [] (.list .string)

end Principal

/-- Texts by key, of a repeated key the last. -/
def Decoder.stringMap : Decoder (SortedMap String) := (Decoder.members .string).map .ofList

namespace Metadata

def toJson (m : Metadata) : Json :=
  ofFields
    [field "name" (.string m.name),
      fieldSome "namespace" .string m.space,
      field "resourceVersion" (.ofNat m.version),
      fieldIf (!m.labels.isEmpty) "labels" (ofMap .string m.labels),
      fieldIf (!m.annotations.isEmpty) "annotations" (ofMap .string m.annotations),
      fieldSome "creationTimestamp" Instant.toJson m.created]

def decoder : Decoder Metadata :=
  .record "ObjectMeta" <|
    Metadata.mk <$> withDefault ["name"] "" .string <*>
      optional "namespace" .string <*>
      withDefault ["resourceVersion"] 0 .nat64 <*>
      withDefault ["labels"] .empty .stringMap <*>
      withDefault ["annotations"] .empty .stringMap <*>
      optional "creationTimestamp" Instant.decoder

end Metadata

namespace Task

def toJson (t : Task) : Json :=
  ofFields
    [field "metadata" t.metadata.toJson, field "spec" t.spec.toJson, field "status" t.status.toJson]

def decoder : Decoder Task :=
  .record "ApprovalTask" <|
    Task.mk <$> withDefault ["metadata"] {} Metadata.decoder <*>
      withDefault ["spec"] {} Spec.decoder <*>
      withDefault ["status"] {} Status.decoder

end Task
end Quorum
