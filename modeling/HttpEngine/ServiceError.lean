import HttpEngine.Message.RequestError
import HttpEngine.Message.Method
/-!
# Failures of a server

What can go wrong outside the bytes of one request: a stage of the pipeline fails, the transport
fails, a request is too long for its buffer, a route is taken, or the address is in use.
-/

namespace HttpEngine

open Text

/-- A failure of the transport. -/
inductive TransportError where
  | unexpectedEnd
  | connectionReset
  | connectionAborted
  | brokenPipe
  | writeZero
  | notConnected
  | notFound
  deriving DecidableEq, Repr

/-- The wording of a failure. -/
def TransportError.message : TransportError → String
  | .unexpectedEnd => "unexpected end of file"
  | .connectionReset => "connection reset"
  | .connectionAborted => "connection aborted"
  | .brokenPipe => "broken pipe"
  | .writeZero => "write zero"
  | .notConnected => "not connected"
  | .notFound => "entity not found"

/-- A failure of a server. -/
inductive ServiceError where
  | internal (text : String)
  | request (cause : RequestError)
  | transport (cause : TransportError)
  | tooLong (limit : Nat)
  | routeTaken (method : Method) (path : String)
  /-- The listening address is in use. -/
  | addressInUse
  deriving DecidableEq, Repr

/-- The wording of a failure. -/
def ServiceError.message : ServiceError → String
  | .internal text => "Internal server error: " ++ text
  | .request cause => "Parse error: " ++ cause.message
  | .transport cause => "I/O error: " ++ cause.message
  | .tooLong limit => "Request exceeds the " ++ decimal limit ++ " byte buffer limit"
  | .routeTaken method path => "Route " ++ method.token ++ " " ++ path ++ " is already registered"
  | .addressInUse => "Failed to bind: address in use"

end HttpEngine
