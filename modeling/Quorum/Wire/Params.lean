import Quorum.Json.Encode
import Quorum.Json.Record
import Quorum.Params
/-!
# Run parameters as JSON

A value is a text or a list of texts.
-/
namespace Quorum
open Json Fields

namespace ParamValue

def toJson : ParamValue → Json
  | text s => .string s
  | list ss => ofList .string ss

/-- The value is read whole before its shape is looked at, so a fault inside it comes first. -/
def decoder : Decoder ParamValue := .whole fun
  | .string s => .ok (text s)
  | j =>
    match (Decoder.list .string).ofJson j with
    | .ok ss => .ok (list ss)
    | .error _ => .error (.noShapeMatches "ParamValue")

end ParamValue

namespace Param

def toJson (p : Param) : Json :=
  ofFields [field "name" (.string p.name), field "value" p.value.toJson]

/-- A parameter is read from its name and its value, the value from a text or a list of texts. -/
def decoder : Decoder Param :=
  .record "Param" <| Param.mk <$> required "name" .string <*> required "value" ParamValue.decoder

end Param
end Quorum
