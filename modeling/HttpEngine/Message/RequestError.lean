import HttpEngine.Target.Basic
import HttpEngine.Text.Numeral
/-!
# Refused requests

The causes for which a byte string is no request, each with its wording. A repeated length or
coding that contradicts an earlier one is refused with both values shown.
-/

namespace HttpEngine

open Text

/-- Why a chunk of a chunked body is refused. -/
inductive ChunkError where
  | sizeNotUtf8
  | invalidSize (text : List Char)
  | sizeOverflow (size : Nat)
  | unterminated
  deriving DecidableEq, Repr

/-- The wording of a refusal. -/
def ChunkError.message : ChunkError → String
  | .sizeNotUtf8 => "chunk size is not UTF-8"
  | .invalidSize text => "invalid chunk size " ++ quoted text
  | .sizeOverflow size => "chunk size " ++ decimal size ++ " overflows"
  | .unterminated => "chunk data not terminated by CRLF"

/-- Why bytes are no request, or a request has not what is asked of it. -/
inductive RequestError where
  | unknownMethod (token : String)
  | badTarget (target : String) (cause : TargetError)
  | malformedRequestLine (line : String)
  /-- The head is not UTF-8. -/
  | undecodableHead
  | unknownVersion (label : String)
  | missingField (description : String)
  | malformedField
  | badLength (value : String)
  | conflictingLengths (earlier later : String)
  | badChunk (cause : ChunkError)
  | unknownCoding (value : String)
  | conflictingCodings (earlier later : String)
  | noRequest
  | cutShort
  | badJson
  deriving DecidableEq, Repr

/-- The wording of a refusal. -/
def RequestError.message : RequestError → String
  | .unknownMethod token => "Invalid HTTP method: " ++ token
  | .badTarget target cause => "Invalid request target: " ++ target ++ ": " ++ cause.message
  | .malformedRequestLine line => "Malformed request line: " ++ line
  | .undecodableHead => "Malformed request line: Invalid UTF-8"
  | .unknownVersion label => "Invalid HTTP version: " ++ label
  | .missingField description => "Required header is missing: " ++ description
  | .malformedField => "Invalid header format"
  | .badLength value => "Invalid Content-Length: " ++ value
  | .conflictingLengths earlier later =>
    "Invalid Content-Length: " ++ earlier ++ ", " ++ later
  | .badChunk cause => "Invalid chunked encoding: " ++ cause.message
  | .unknownCoding value => "Unsupported Transfer-Encoding: " ++ value
  | .conflictingCodings earlier later =>
    "Unsupported Transfer-Encoding: " ++ earlier ++ ", " ++ later
  | .noRequest => "Empty request"
  | .cutShort => "Incomplete request"
  | .badJson => "JSON parsing error"

end HttpEngine
