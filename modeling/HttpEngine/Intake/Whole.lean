import HttpEngine.Intake.Decoder
/-!
# Whole requests

A byte string that is known to be **complete** is read as one request: a head that no blank line
ends is ended by the end of the input, and a body that is shorter than declared is a refusal
instead of a reason to wait. What follows the request is left unread. A target that cannot be
parsed still leaves a request, without segments and query parameters.
-/

namespace HttpEngine

open Text

/-- The head of an input, and what follows the blank line behind it. -/
def splitHead (input : Buffer) : List UInt8 × Buffer :=
  match findFrom blankLineAt? input 0 with
  | some (stop, blank) => ((input.extract 0 stop).toList, input.extract (stop + blank.length))
  | none => (input.toList, #[])

/-- The body at the start of an input. -/
def bodyOf (framing : Framing) (input : Buffer) : Except RequestError (List UInt8) :=
  match framing with
  | .length size =>
    if size ≤ input.size then .ok (input.extract 0 size).toList else .error .cutShort
  | .chunked =>
    match (Chunked.start 0).resume input with
    | .error e => .error (.badChunk e)
    | .ok (.waiting _) => .error .cutShort
    | .ok (.finished data _) => .ok data

/-- The request with its target parsed, if it can be. -/
def Request.tryReadTarget (r : Request) : Request :=
  match r.readTarget with
  | .ok r => r
  | .error _ => r

/-- The request that a complete input holds. -/
def Request.ofBytes (input : List UInt8) : Except RequestError Request :=
  if input.isEmpty then .error .noRequest
  else
    match Head.parseBytes (splitHead input.toArray).1 with
    | .error e => .error e
    | .ok request =>
      match Framing.ofFields request.fields with
      | .error e => .error e
      | .ok framing =>
        match bodyOf framing (splitHead input.toArray).2 with
        | .error e => .error e
        | .ok body => .ok { request.tryReadTarget with body := body }

end HttpEngine
