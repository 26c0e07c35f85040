import Quorum.Json.Encode
import Quorum.Json.Record
import Quorum.Status
import Quorum.Time.Rfc3339
import Quorum.Wire.Spec
/-!
# Statuses as JSON

A status holds the time of its start, so the form of times in JSON is here too.
-/
namespace Quorum
open Json Fields

def Instant.toJson (t : Instant) : Json := .string t.text

def Instant.decoder : Decoder Instant :=
  .parsed "an RFC 3339 formatted date and time string" fun s => (parse s).mapError (·.message)

def Span.toJson (s : Span) : Json :=
  ofFields [field "secs" (.ofNat s.wholeSeconds), field "nanos" (.ofNat s.subsecondNanos)]

/-- Seconds and nanoseconds. More than a second of nanoseconds is carried over. -/
def Span.decoder : Decoder Span :=
  .record "Duration" <|
    Span.make <$> withDefault ["secs"] 0 .nat64 <*> withDefault ["nanos"] 0 .nat32

namespace Outcome

def toJson (o : Outcome) : Json := .string o.text

def decoder : Decoder Outcome :=
  .variant [.plain "Pending" pending, .plain "Approved" approved, .plain "Rejected" rejected]

end Outcome

namespace MemberResponse

def toJson (m : MemberResponse) : Json :=
  ofFields
    [field "name" (.string m.name), field "response" m.response.toJson,
      fieldSome "message" .string m.message]

def decoder : Decoder MemberResponse :=
  .record "GroupMemberState" <|
    MemberResponse.mk <$> required "name" .string <*> required "response" Outcome.decoder <*>
      optional "message" .string

end MemberResponse

namespace Response

def toJson (r : Response) : Json :=
  ofFields
    [field "name" (.string r.name), field "type" r.kind.toJson, field "response" r.response.toJson,
      fieldSome "message" .string r.message,
      fieldIf (!r.members.isEmpty) "groupMembers" (ofList MemberResponse.toJson r.members)]

def decoder : Decoder Response :=
  .record "AggregatedEntry" <|
    Response.mk <$> required "name" .string <*>
      withDefault ["type"] .user Approver.Kind.decoder <*>
      required "response" Outcome.decoder <*>
      optional "message" .string <*>
      withDefault ["groupMembers"] [] (.list MemberResponse.decoder)

end Response

namespace Status

def toJson (s : Status) : Json :=
  ofFields
    [field "state" s.state.toJson,
      fieldIf (!s.approvers.isEmpty) "approvers" (ofList .string s.approvers),
      field "approversResponse" (ofList Response.toJson s.responses),
      field "approvalsRequired" (.int s.required),
      field "approvalsReceived" (.int s.received),
      fieldSome "startTime" Instant.toJson s.startTime,
      fieldSome "reason" .string s.reason]

def decoder : Decoder Status :=
  .record "ApprovalStatus" <|
    Status.mk <$> withDefault ["state"] .pending Outcome.decoder <*>
      withDefault ["approvers"] [] (.list .string) <*>
      withDefault ["approversResponse"] [] (.list Response.decoder) <*>
      withDefault ["approvalsRequired"] 0 .int64 <*>
      withDefault ["approvalsReceived"] 0 .int64 <*>
      optional "startTime" Instant.decoder <*>
      optional "reason" .string

end Status
end Quorum
