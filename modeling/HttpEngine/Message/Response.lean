import HttpEngine.Json.Writer
import HttpEngine.Message.Request
import HttpEngine.Message.Status
import HttpEngine.Config
/-!
# Responses

A response is built from a status by setting fields, a body and a choice about the connection,
and is **framed** once it leaves the pipeline: its length field is set to the length of its
body whatever was said before, and its connection field is set where the choice differs from the
default of the version. A response that makes no choice takes the request's, or else the
version's default.

Default fields fill in the names that a response does not have; they never replace a field.
-/

namespace HttpEngine

open Text

/-- A response. -/
structure Response where
  status : Status
  version : Version := .http11
  fields : Fields := ∅
  body : List UInt8 := []
  /-- Whether the connection persists after this response, if the response chooses. -/
  persistence : Option Bool := none
  deriving DecidableEq, Inhabited

namespace Response

/-- The response of a status, without fields and body. -/
def ofStatus (status : Status) : Response := { status }

/-- Sets a field, in place of every spelling of its name. -/
def setField (r : Response) (name value : String) : Response :=
  { r with fields := r.fields.set name value }

/-- The value of a field. -/
def field? (r : Response) (name : String) : Option String := r.fields.value? name

/-- Sets the body, and the length field along with it. -/
def setBody (r : Response) (body : List UInt8) : Response :=
  { r with body := body }.setField "Content-Length" (decimal body.length)

/-- Sets the body to a text. -/
def setText (r : Response) (body : String) : Response := r.setBody (Utf8.bytesOf body)

/-- Sets the media type. -/
def setContentType (r : Response) (type : String) : Response := r.setField "Content-Type" type

/-- Sets the body to a JSON value, and the media type along with it. -/
def setJson (r : Response) (v : Json.Value) : Response :=
  (r.setContentType Request.jsonType).setText v.write

/-- Adds the default fields whose names the response does not have. -/
def withDefaults (r : Response) (config : Config) : Response :=
  { r with
    fields := config.defaultFields.toList.foldl
      (fun fields field => Fields.setDefault fields field.1 field.2) r.fields }

/-- Answers in the request's version, and with the request's choice about the connection where
the response makes none. -/
def answering (r : Response) (request : Request) : Response :=
  { r with version := request.version, persistence := some (r.persistence.getD request.persists) }

/-- What a server adds to every response before the pipeline goes on with it. -/
def seed (config : Config) (request : Request) (r : Response) : Response :=
  (r.withDefaults config).answering request

/-- The bare answer of a server to a request. -/
def bare (status : Status) (config : Config) (request : Request) : Response :=
  (ofStatus status).seed config request

/-- Whether the connection persists after this response. -/
def persists (r : Response) : Bool := r.persistence.getD r.version.persists

/-- Sets the connection field where the response differs from the default of its version. -/
def announcePersistence (r : Response) : Response :=
  match r.version, r.persists with
  | .http11, false => r.setField connectionName "close"
  | .http10, true => r.setField connectionName "keep-alive"
  | _, _ => r

/-- Sets the fields that delimit the response and announce what happens to the connection. -/
def framed (r : Response) : Response :=
  (r.setField "Content-Length" (decimal r.body.length)).announcePersistence

/-- Whether a reader of the response expects the connection to persist. -/
def announcedPersistence (r : Response) : Bool := persistsBy r.version r.fields

/-- The status line. -/
def statusLine (r : Response) : String :=
  r.version.label ++ " " ++ decimal r.status.code ++ " " ++ r.status.reason ++ "\r\n"

/-- A field line. -/
def fieldLine (field : String × String) : String := field.1 ++ ": " ++ field.2 ++ "\r\n"

/-- The bytes of a response. -/
def encode (r : Response) : List UInt8 :=
  Utf8.bytesOf r.statusLine ++ (r.fields.toList.flatMap fun f => Utf8.bytesOf (fieldLine f)) ++
    Utf8.bytesOf "\r\n" ++ r.body

end Response

end HttpEngine
