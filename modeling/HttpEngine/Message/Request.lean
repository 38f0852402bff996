import HttpEngine.Json.Reader
import HttpEngine.Message.Method
import HttpEngine.Message.Persistence
import HttpEngine.Message.RequestError
/-!
# Requests

A request keeps its target exactly as the request line spelt it. The segments and the query
parameters are those of the parsed target and stay empty until it is parsed; the path parameters
are filled in by the route that the request resolves to.
-/

namespace HttpEngine

open Text

/-- A request. -/
structure Request where
  method : Method
  /-- The target as it was spelt, query included. -/
  target : String
  version : Version
  fields : Fields
  body : List UInt8 := []
  /-- The query parameters of the parsed target. -/
  query : TextMap := ∅
  /-- The decoded segments of the parsed target. -/
  segments : List String := []
  /-- The parameters of the route. -/
  params : TextMap := ∅
  deriving DecidableEq, Inhabited

namespace Request

/-- The request with the segments and query parameters of a target. -/
def withTarget (r : Request) (t : Target) : Request :=
  { r with segments := t.segments, query := t.params }

/-- The request with its own target parsed. -/
def readTarget (r : Request) : Except RequestError Request :=
  match Target.parse r.target with
  | .ok t => .ok (r.withTarget t)
  | .error cause => .error (.badTarget r.target cause)

/-- Whether the client wants the connection to persist after the response. -/
def persists (r : Request) : Bool := persistsBy r.version r.fields

/-- The media type of JSON bodies. -/
def jsonType : String := "application/json"

/-- Whether the request declares a JSON body, with or without parameters of the media type. -/
def declaresJson (r : Request) : Bool :=
  match r.fields.value? "Content-Type" with
  | some value => jsonType.toList.isPrefixOf value.toList
  | none => false

/-- The value of a body that is declared to be JSON. -/
def jsonBody (r : Request) : Except RequestError Json.Value :=
  if r.declaresJson then
    match Utf8.decode r.body with
    | .error _ => .error .badJson
    | .ok text =>
      match Json.read text with
      | some v => .ok v
      | none => .error .badJson
  else .error (.missingField ("Content-Type: " ++ jsonType))

end Request

end HttpEngine
