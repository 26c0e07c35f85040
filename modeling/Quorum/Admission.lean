import Quorum.Guard
import Quorum.Validation
import Quorum.Wire.Task
/-!
# Admission of writes

Every creation and every edit of a task is reviewed before it is stored: the specification must be
valid, a new one must be all pending, and an edit must be the acting principal's own vote. Tasks
arrive as JSON and are judged as decoded.
-/
namespace Quorum
open Json Fields

/-- What a request asks to do to a task. Only creations and updates are judged; the other two are
known by name so that they can be refused by name. -/
inductive Operation
  | create
  | update
  | delete
  | connect
deriving DecidableEq, Repr

namespace Operation

def text : Operation → String
  | create => "CREATE"
  | update => "UPDATE"
  | delete => "DELETE"
  | connect => "CONNECT"

def toJson (o : Operation) : Json := .string o.text

def decoder : Decoder Operation :=
  .variant ([create, update, delete, connect].map fun o => .plain o.text o)

end Operation

namespace Admission

/-- A request as it reaches the review. The objects are kept as the JSON they came in, because the
review judges what it decodes and reports what it cannot decode. -/
structure Request where
  operation : Operation
  user : Principal
  object : Json := .null
  oldObject : Option Json := none

namespace Request

/-- The request that a client with the whole task in hand sends, its object encoded again. -/
def create (user : Principal) (t : Task) : Request := ⟨.create, user, t.toJson, none⟩

def update (user : Principal) (new old : Task) : Request :=
  ⟨.update, user, new.toJson, some old.toJson⟩

def toJson (r : Request) : Json :=
  ofFields
    [field "operation" r.operation.toJson, field "userInfo" r.user.toJson,
      field "object" r.object, fieldSome "oldObject" id r.oldObject]

def decoder : Decoder Request :=
  .record "AdmissionRequest" <|
    Request.mk <$> required "operation" Operation.decoder <*>
      required "userInfo" Principal.decoder <*>
      withDefault ["object"] .null .json <*>
      optional "oldObject" .json

end Request

/-- Why a request is not allowed. Each of the two objects can fail to decode for reasons of its
own. -/
inductive Refusal
  | badNewObject (error : DecodeError)
  | badOldObject (error : DecodeError)
  | invalid (problems : Spec.Problems)
  | denied (denial : Denial)
  | unsupported (operation : Operation)
deriving Repr

/-- The text that the answer carries, the cause spelled out behind the step that failed. -/
def Refusal.message : Refusal → String
  | badNewObject e => s!"cannot decode incoming new object: {e.message}"
  | badOldObject e => s!"cannot decode incoming old object: {e.message}"
  | invalid ps => s!"validation failed: {ps.text}"
  | denied d => d.message
  | unsupported o => s!"unsupported operation: {o.text}"

/-- Judges a request. The new object is decoded and validated first, whatever the operation, and
only then the operation is looked at. The old object of an update is decoded but not validated. -/
def review (r : Request) : Except Refusal Unit := do
  let new ← (Task.decoder.ofJson r.object).mapError .badNewObject
  new.spec.validate.mapError .invalid
  match r.operation with
  | .create => new.spec.validateNew.mapError .invalid
  | .update =>
    let old ← (Task.decoder.ofJson (r.oldObject.getD .null)).mapError .badOldObject
    match authorize old new.spec r.user with
    | .allow => return ()
    | .deny d => throw (.denied d)
  | o => throw (.unsupported o)

/-- The answer of a review, with a message exactly if it is a refusal. -/
structure Response where
  allowed : Bool
  message : Option String := none
deriving DecidableEq, Repr

namespace Response

def toJson (r : Response) : Json :=
  ofFields [field "allowed" (.bool r.allowed), fieldSome "message" .string r.message]

def decoder : Decoder Response :=
  .record "AdmissionResponse" <|
    Response.mk <$> required "allowed" .bool <*> optional "message" .string

end Response

/-- The review as a caller sees it. Nothing about a task is changed by asking. -/
def respond (r : Request) : Response :=
  match review r with
  | .ok () => ⟨true, none⟩
  | .error e => ⟨false, some e.message⟩

end Admission
end Quorum
