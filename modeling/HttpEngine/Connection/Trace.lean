import HttpEngine.Connection.PeerAddress
import HttpEngine.Message.Request
import HttpEngine.ServiceError
/-!
# What a connection does

The **trace** of a connection lists what it does, each event with its time: the reads it tries and
the bytes that arrive, the requests it takes from its buffer, the flows it runs, the bytes it
writes, the flushes, the closing of its write side, and the notes it leaves for a log. A connection
has no other effect, so every property of one is a property of its trace.
-/

namespace HttpEngine

open Text

/-- A note for the log. -/
inductive Note where
  | closedByPeer
  | readFailed (cause : ServiceError)
  /-- No request was complete within a number of milliseconds. -/
  | noRequestWithin (timeout : Nat)
  | readCancelled
  | writeCancelled
  | writeFailed (cause : TransportError)
  | closeFailed (cause : TransportError)
  | badTarget (cause : RequestError)
  | handlerFailed (method : Method) (target : String) (cause : ServiceError)
  | handlerCrashed (method : Method) (target : String) (text : Option String)
  deriving DecidableEq, Repr

/-- The level of a note. -/
inductive Level where
  | debug
  | error
  deriving DecidableEq, Repr

/-- The label of a level. -/
def Level.label : Level → String
  | .debug => "DEBUG"
  | .error => "ERROR"

/-- The decimal digits of a fraction of a second, without trailing zeros. -/
def fractionDigits (milliseconds : Nat) : List Char :=
  let digits := Nat.toDigits 10 (1000 + milliseconds)
  ((digits.drop 1).reverse.dropWhile (· == '0')).reverse

/-- A duration as it is shown: in seconds from one second on, with a fraction if it has one, in
milliseconds below, and nothing as nanoseconds. -/
def shownDuration (milliseconds : Nat) : String :=
  if 1000 ≤ milliseconds then
    let fraction := fractionDigits (milliseconds % 1000)
    let point := if fraction.isEmpty then [] else ['.']
    decimal (milliseconds / 1000) ++ String.ofList (point ++ fraction) ++ "s"
  else if 0 < milliseconds then decimal milliseconds ++ "ms"
  else "0ns"

namespace Note

/-- A fault of a handler is an error, and all else is for debugging. -/
def level : Note → Level
  | .handlerFailed .. => .error
  | .handlerCrashed .. => .error
  | _ => .debug

/-- The wording of a note of the connection with a peer. -/
def message (peer : Option PeerAddress) (note : Note) : String :=
  let peer := PeerAddress.name peer
  match note with
  | .closedByPeer => peer ++ ": closed by peer"
  | .readFailed cause => peer ++ ": read failed: " ++ cause.message
  | .noRequestWithin timeout => peer ++ ": no request within " ++ shownDuration timeout
  | .readCancelled => peer ++ ": read cancelled by shutdown"
  | .writeCancelled => peer ++ ": write cancelled by shutdown"
  | .writeFailed cause => peer ++ ": write failed: " ++ (ServiceError.transport cause).message
  | .closeFailed cause => peer ++ ": shutdown failed: " ++ cause.message
  | .badTarget cause => peer ++ ": " ++ cause.message
  | .handlerFailed method target cause =>
    method.token ++ " " ++ target ++ ": handler failed: " ++ cause.message
  | .handlerCrashed method target text =>
    method.token ++ " " ++ target ++ ": handler panicked: " ++ text.getD "unknown panic"

end Note

/-- Something that a connection does. -/
inductive Event (γ : Type) where
  /-- It tries to read at most so many bytes. -/
  | asked (limit : Nat)
  /-- A read returns bytes, or none at the end of the stream. -/
  | arrived (bytes : List UInt8)
  /-- It takes a request from the front of its buffer. -/
  | taken (request : Request) (consumed : Nat)
  /-- It builds a context and runs a flow on it, which leaves it changed. There is no context if
  building it fails. -/
  | ran (context : Option γ)
  /-- A write takes bytes. -/
  | wrote (bytes : List UInt8)
  | flushed
  /-- It closes its write side. -/
  | closed
  | noted (note : Note)

/-- What a connection does, with the time of each event. -/
abbrev Trace (γ : Type) := List (Nat × Event γ)

namespace Trace

variable {γ : Type}

/-- Events that happen at one time. -/
def stamp (time : Nat) (events : List (Event γ)) : Trace γ := events.map fun e => (time, e)

/-- The events that an observer sees who leaves after a time. -/
def upTo (t : Trace γ) (time : Nat) : Trace γ := t.takeWhile fun e => e.1 ≤ time

/-- The events without their times. -/
def events (t : Trace γ) : List (Event γ) := t.map (·.2)

/-- Whether the connection has closed. -/
def hasClosed (t : Trace γ) : Bool :=
  t.any fun
    | (_, .closed) => true
    | _ => false

/-- The bytes that have arrived. -/
def received (t : Trace γ) : List UInt8 :=
  t.flatMap fun
    | (_, .arrived bytes) => bytes
    | _ => []

/-- The bytes that have been written. -/
def written (t : Trace γ) : List UInt8 :=
  t.flatMap fun
    | (_, .wrote bytes) => bytes
    | _ => []

/-- The notes for the log. -/
def notes (t : Trace γ) : List Note :=
  t.filterMap fun
    | (_, .noted note) => some note
    | _ => none

@[simp] theorem written_append (s t : Trace γ) : written (s ++ t) = written s ++ written t := by
  simp [written]

@[simp] theorem notes_append (s t : Trace γ) : notes (s ++ t) = notes s ++ notes t := by
  simp [notes]

end Trace

/-- What shows of a connection from outside: what it does for a request, and what its peer sees. -/
inductive Sight (γ : Type) where
  | ran (context : Option γ)
  | wrote (bytes : List UInt8)
  | flushed
  | closed

/-- A sight in front of others, where writes with nothing between them show as one. -/
def Sight.join {γ : Type} (s : Sight γ) (rest : List (Sight γ)) : List (Sight γ) :=
  match s, rest with
  | .wrote bytes, .wrote more :: rest => .wrote (bytes ++ more) :: rest
  | s, rest => s :: rest

/-- What shows of a connection that does the given things. -/
def Trace.sights {γ : Type} : Trace γ → List (Sight γ)
  | [] => []
  | (_, .ran context) :: rest => (Sight.ran context).join (sights rest)
  | (_, .wrote bytes) :: rest => (Sight.wrote bytes).join (sights rest)
  | (_, .flushed) :: rest => Sight.flushed.join (sights rest)
  | (_, .closed) :: rest => Sight.closed.join (sights rest)
  | _ :: rest => sights rest

end HttpEngine
