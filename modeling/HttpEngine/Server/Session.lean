import HttpEngine.Server.Slots
/-!
# Sessions of clients

A **session** is a series of steps that clients of one server take in turn: they open connections
by name, send data and wait for one response, or for everything until the connection ends. The
data that a client has sent so far determine what its connection has written so far, so a visit
remembers just these and how many responses the client has read; the trace of the connection is
that of a peer who has sent them and then stays silent, or has closed.

A client may also be unable to reach the server at all. Then no connection opens, and each later
step on it finds none.
-/

namespace HttpEngine

/-- A step of a session. -/
inductive SessionStep where
  | openConnection (name : String)
  /-- Sends data and reads one response. -/
  | ask (name : String) (data : List UInt8)
  /-- Sends data, closes the sending side and reads to the end. -/
  | finish (name : String) (data : List UInt8)
  /-- Reads to the end. -/
  | drain (name : String)
  /-- Stops the server. -/
  | stop
  deriving DecidableEq, Repr

/-- Why a step of a session fails. -/
inductive SessionError where
  | unreachable
  | noSuchConnection
  deriving DecidableEq, Repr

/-- The wording of a failure. -/
def SessionError.message : SessionError → String
  | .unreachable => "NetworkUnreachable"
  | .noSuchConnection => "no such connection"

/-- What a step of a session answers. -/
inductive SessionAnswer where
  | done
  | bytes (bytes : List UInt8)
  | failed (cause : SessionError)
  deriving DecidableEq, Repr

/-- A client's side of a connection. -/
structure Visit where
  /-- The number of the connection. -/
  connection : Nat
  /-- Whether the connection is served, or was turned away. -/
  served : Bool
  /-- What the client has sent. -/
  sent : List UInt8 := []
  /-- How many responses the client has read. -/
  responses : Nat := 0

/-- A session in progress. -/
structure Session (γ : Type) where
  service : Service γ
  /-- Whether the clients can reach the server. -/
  reachable : Bool
  slots : Slots
  visits : List (String × Visit) := []
  stopped : Bool := false

namespace Session

variable {γ : Type}

/-- A session in which nothing has happened. -/
def start (service : Service γ) (reachable : Bool) : Session γ :=
  { service, reachable, slots := Slots.ofLimit service.config.connectionLimit }

/-- The visit on a connection. -/
def visit? (s : Session γ) (name : String) : Option Visit :=
  (s.visits.find? fun v => v.1 == name).map (·.2)

/-- The session with a visit recorded under a name. -/
def record (s : Session γ) (name : String) (v : Visit) : Session γ :=
  { s with visits := (name, v) :: s.visits.filter fun w => w.1 != name }

/-- What a connection does whose client has sent what it has sent and goes on in a certain way. -/
def trace (s : Session γ) (v : Visit) (ending : Ending) : Trace γ :=
  s.service.attend v.served { arrivals := [.data v.sent], ending }

/-- How the stream of a client goes on that has neither closed nor anything to say. -/
def idle (s : Session γ) : Ending := if s.stopped then .stops else .silent

/-- The responses that a connection writes, in order. -/
def responsesOf : List (Sight γ) → List (List UInt8)
  | [] => []
  | .wrote bytes :: rest => bytes :: responsesOf rest
  | _ :: rest => responsesOf rest

/-- The connections that have ended by now give back their slots. -/
def settle (s : Session γ) : Session γ :=
  s.visits.foldl
    (fun s v =>
      if v.2.served && ((s.trace v.2 s.idle).upTo 0).hasClosed then
        { s with slots := (s.slots.finish v.2.connection false).reap }
      else s)
    s

/-- Opens a connection. -/
def openConnection (s : Session γ) (name : String) : SessionAnswer × Session γ :=
  if s.reachable && !s.stopped then
    let s := s.settle
    let (served, slots) := s.slots.accept
    (.done, { s with slots }.record name { connection := s.slots.accepted, served })
  else (.failed .unreachable, s)

/-- The responses on a connection that its client has not read, and the session without the
visit, which has read to the end. -/
def readToEnd (s : Session γ) (name : String) (v : Visit) (ending : Ending) :
    SessionAnswer × Session γ :=
  let unread := (responsesOf (s.trace v ending).sights).drop v.responses
  (.bytes unread.flatten,
    { s with
      slots := (s.slots.finish v.connection false).reap
      visits := s.visits.filter fun w => w.1 != name })

/-- Takes one step. -/
def step (s : Session γ) : SessionStep → SessionAnswer × Session γ
  | .openConnection name => s.openConnection name
  | .ask name data =>
    match s.visit? name with
    | none => (.failed .noSuchConnection, s)
    | some v =>
      let v := { v with sent := v.sent ++ data }
      let unread := (responsesOf (s.trace v s.idle).sights).drop v.responses
      (.bytes (unread.headD []), s.record name { v with responses := v.responses + 1 })
  | .finish name data =>
    match s.visit? name with
    | none => (.failed .noSuchConnection, s)
    | some v => s.readToEnd name { v with sent := v.sent ++ data } .closes
  | .drain name =>
    match s.visit? name with
    | none => (.failed .noSuchConnection, s)
    | some v => s.readToEnd name v s.idle
  | .stop => (.done, { s with stopped := true })

/-- Takes steps in turn. -/
def run (s : Session γ) : List SessionStep → List SessionAnswer
  | [] => []
  | step :: rest => (s.step step).1 :: run (s.step step).2 rest

end Session

end HttpEngine
