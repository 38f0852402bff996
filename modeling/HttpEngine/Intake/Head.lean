import HttpEngine.Message.Request
/-!
# Request heads

A **head** is a request line and header lines. The request line has exactly three words, which
name the method, the target and the version; the method is judged before the version. A header
line is cut at its first colon; its name must not be empty or hold a blank once it is trimmed.
An empty line ends the head.

A repeated field replaces the earlier one, in any spelling of its name, except that the two
fields which delimit the body must not be repeated with another value: two lengths or two codings
would let two readers of the same bytes disagree about where the request ends.
-/

namespace HttpEngine

open Text

namespace Head

/-- The method, target and version that a request line names. -/
def requestLine (line : List Char) : Except RequestError (Method × String × Version) :=
  match words line with
  | [method, target, version] =>
    match Method.ofToken? (String.ofList method) with
    | none => .error (.unknownMethod (String.ofList method))
    | some m =>
      match Version.ofLabel? (String.ofList version) with
      | none => .error (.unknownVersion (String.ofList version))
      | some v => .ok (m, String.ofList target, v)
  | _ => .error (.malformedRequestLine (String.ofList line))

/-- The name and value of a header line. -/
def fieldLine (line : List Char) : Except RequestError (String × String) :=
  match cutAt ':' line with
  | none => .error .malformedField
  | some (name, value) =>
    let name := trim name
    if name.isEmpty || name.any isBlank then .error .malformedField
    else .ok (String.ofList name, String.ofList (trim value))

/-- The name of the field that gives a body's length. -/
def lengthName : String := "Content-Length"

/-- The name of the field that gives a body's coding. -/
def codingName : String := "Transfer-Encoding"

/-- Fields with one more, unless it contradicts an earlier one about where the body ends. -/
def addField (fs : Fields) (name value : String) : Except RequestError Fields :=
  match fs.value? name with
  | none => .ok (fs.insert name value)
  | some earlier =>
    if earlier = value then .ok (fs.set name value)
    else if sameFolded name lengthName then .error (.conflictingLengths earlier value)
    else if sameFolded name codingName then .error (.conflictingCodings earlier value)
    else .ok (fs.set name value)

/-- Fields with those of header lines added, up to the first empty line. -/
def readFields (fs : Fields) : List (List Char) → Except RequestError Fields
  | [] => .ok fs
  | line :: rest =>
    if line.isEmpty then .ok fs
    else
      match fieldLine line with
      | .error e => .error e
      | .ok (name, value) =>
        match addField fs name value with
        | .error e => .error e
        | .ok fs => readFields fs rest

/-- The request that a head opens, without its body. -/
def parse (head : List Char) : Except RequestError Request :=
  match lines head with
  | [] => .error .noRequest
  | first :: rest =>
    match requestLine first with
    | .error e => .error e
    | .ok (method, target, version) =>
      match readFields ∅ rest with
      | .error e => .error e
      | .ok fields => .ok { method, target, version, fields }

/-- The request that the bytes of a head open. -/
def parseBytes (head : List UInt8) : Except RequestError Request :=
  match Utf8.decode head with
  | .error _ => .error .undecodableHead
  | .ok text => parse text

end Head

/-- How the body of a request is delimited. -/
inductive Framing where
  /-- A body of this many bytes. -/
  | length (size : Nat)
  /-- A sequence of chunks. -/
  | chunked
  deriving DecidableEq, Repr

/-- The framing that header fields declare: a coding before a length, and an empty body where
there is neither. -/
def Framing.ofFields (fs : Fields) : Except RequestError Framing :=
  match fs.value? Head.codingName with
  | some coding =>
    let coding := String.ofList (trim coding.toList)
    if sameFolded coding "chunked" then .ok .chunked
    else .error (.unknownCoding coding)
  | none =>
    match fs.value? Head.lengthName with
    | some value =>
      match readNumeral 10 (trim value.toList) with
      | some size => .ok (.length size)
      | none => .error (.badLength value)
    | none => .ok (.length 0)

end HttpEngine
