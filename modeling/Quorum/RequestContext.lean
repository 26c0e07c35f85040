import Quorum.Text.Uuid
import Quorum.Wire.Task
/-!
# Contexts of requests

What is known about a review, a pass or a vote while it is handled. A request made on behalf of
another one has an identifier of its own and shares the correlation, the task, the principal and the
metadata of its parent.
-/
namespace Quorum
open Json Fields

/-- What is known of a request while it is handled. Requests that were made for one another share
their correlation, and each names the one it was made for. -/
structure RequestContext where
  requestId : Uuid
  correlationId : Uuid
  parentId : Option Uuid := none
  startedAt : Instant
  source : String
  operation : Option String := none
  task : Option String := none
  principal : Option String := none
  metadata : SortedMap String := .empty
deriving DecidableEq, Repr

namespace RequestContext

/-- A request of its own. Its identifier is the correlation of everything that comes of it. -/
def start (id : Uuid) (now : Instant) (source : String) : RequestContext :=
  { requestId := id, correlationId := id, startedAt := now, source }

/-- The source of a request that does not say where it comes from. -/
def unknownSource : String := "unknown"

/-- A request made on behalf of another. It takes over everything but the identity, the time, the
source and the operation. -/
def child (c : RequestContext) (id : Uuid) (now : Instant) (source : String) : RequestContext :=
  { c with
    requestId := id
    parentId := some c.requestId
    startedAt := now
    source := source
    operation := none }

/-- Puts a text under a key, over the one that may be there. Children made before do not see it. -/
def addMetadata (c : RequestContext) (key value : String) : RequestContext :=
  { c with metadata := c.metadata.insert key value }

/-- Whole milliseconds since the start, or none if the start lies ahead. -/
def elapsedMillis (c : RequestContext) (now : Instant) : Nat :=
  (now.nanosSince c.startedAt).toNat / 1000000

def shortId (c : RequestContext) : String := c.requestId.short

def toJson (c : RequestContext) : Json :=
  ofFields
    [field "request_id" (.string c.requestId.text),
      field "correlation_id" (.string c.correlationId.text),
      field "parent_id" (ofOption (.string ·.text) c.parentId),
      field "started_at" c.startedAt.toJson,
      field "source" (.string c.source),
      field "operation" (ofOption .string c.operation),
      field "task" (ofOption .string c.task),
      field "principal" (ofOption .string c.principal),
      field "metadata" (ofMap .string c.metadata)]

end RequestContext

def Uuid.decoder : Decoder Uuid := .parsed "a formatted UUID string" fun s =>
  match parse? s with
  | some u => .ok u
  | none => .error "UUID parsing failed"

def RequestContext.decoder : Decoder RequestContext :=
  .record "RequestContext" <|
    RequestContext.mk <$> required "request_id" Uuid.decoder <*>
      required "correlation_id" Uuid.decoder <*>
      nullable "parent_id" Uuid.decoder <*>
      required "started_at" Instant.decoder <*>
      required "source" .string <*>
      nullable "operation" .string <*>
      nullable "task" .string <*>
      nullable "principal" .string <*>
      withDefault ["metadata"] .empty .stringMap

end Quorum
