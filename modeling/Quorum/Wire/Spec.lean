import Quorum.Approver
import Quorum.Json.Encode
import Quorum.Json.Record
/-!
# Specifications as JSON

Only names must be given. A message, a description and member records are written when there are
any; member records may also be read under the name `members`.
-/
namespace Quorum
open Json Fields

namespace Vote

def toJson (v : Vote) : Json := .string v.text

def decoder : Decoder Vote := Decoder.string.map ofText

end Vote

namespace Member

def toJson (m : Member) : Json :=
  ofFields [field "name" (.string m.name), field "input" m.vote.toJson]

def decoder : Decoder Member :=
  .record "UserVote" <|
    Member.mk <$> required "name" .string <*> withDefault ["input"] .pending Vote.decoder

end Member

namespace Approver

def Kind.toJson (k : Kind) : Json := .string k.text

def Kind.decoder : Decoder Kind := Decoder.string.map Kind.ofText

def toJson (a : Approver) : Json :=
  ofFields
    [field "name" (.string a.name), field "type" a.kind.toJson, field "input" a.vote.toJson,
      fieldSome "message" .string a.message,
      fieldIf (!a.members.isEmpty) "users" (ofList Member.toJson a.members)]

def decoder : Decoder Approver :=
  .record "ApproverEntry" <|
    Approver.mk <$> required "name" .string <*>
      withDefault ["type"] .user Kind.decoder <*>
      withDefault ["input"] .pending Vote.decoder <*>
      optional "message" .string <*>
      withDefault ["users", "members"] [] (.list Member.decoder)

end Approver

namespace Spec

def toJson (s : Spec) : Json :=
  ofFields
    [field "approvers" (ofList Approver.toJson s.approvers),
      field "numberOfApprovalsRequired" (.int s.required),
      fieldSome "description" .string s.description]

def decoder : Decoder Spec :=
  .record "ApprovalSpec" <|
    Spec.mk <$> withDefault ["approvers"] [] (.list Approver.decoder) <*>
      withDefault ["numberOfApprovalsRequired"] 0 .int64 <*>
      optional "description" .string

end Spec
end Quorum
