import HttpEngine.Connection.Serve
/-!
# Connection slots

A server serves at most so many connections at once. Each accepted connection either takes a slot
and is served, or is turned away at once with a response that says so and closes. What holds the
slot is the worker of the connection, and when that ends, in whatever way, it gives the slot back.
Ended workers stay on record until they are reaped, which affects no slot.

Connections are numbered in the order in which they are accepted.
-/

namespace HttpEngine

/-- The slots of a server, and the connections that hold one or have held one. -/
structure Slots where
  /-- The slots that are free. -/
  free : Nat
  /-- How many connections have been accepted. -/
  accepted : Nat := 0
  /-- The connections that are being served. -/
  live : List Nat := []
  /-- The connections whose workers have ended and are still on record, each with whether its worker
  has crashed. -/
  ended : List (Nat × Bool) := []
  deriving DecidableEq, Repr

namespace Slots

/-- Slots of which none is taken. -/
def ofLimit (limit : Nat) : Slots := { free := limit }

/-- Accepts a connection: whether it is served, and the slots afterwards. -/
def accept (s : Slots) : Bool × Slots :=
  match s.free with
  | 0 => (false, { s with accepted := s.accepted + 1 })
  | free + 1 =>
    (true, { s with free, accepted := s.accepted + 1, live := s.live ++ [s.accepted] })

/-- The worker of a connection has ended, if there was one. -/
def finish (s : Slots) (connection : Nat) (crashed : Bool) : Slots :=
  if s.live.contains connection then
    { s with
      free := s.free + 1
      live := s.live.erase connection
      ended := s.ended ++ [(connection, crashed)] }
  else s

/-- The connections on record whose workers have crashed. -/
def crashed (s : Slots) : List Nat := (s.ended.filter (·.2)).map (·.1)

/-- Strikes the ended connections from the record. -/
def reap (s : Slots) : Slots := { s with ended := [] }

/-! ### Occurrences -/

/-- Something that happens to the slots. -/
inductive Occurrence where
  | accepted
  /-- The worker of a connection ends. -/
  | ended (connection : Nat) (crashed : Bool)
  | reaped
  deriving DecidableEq, Repr

/-- What comes of it. -/
inductive Outcome where
  | served (connection : Nat)
  | turnedAway (connection : Nat)
  /-- The connection has given back its slot. -/
  | gaveBack (connection : Nat)
  /-- There was no such worker. -/
  | nothing
  /-- The workers that are found to have crashed. -/
  | found (crashed : List Nat)
  deriving DecidableEq, Repr

/-- Lets something happen. -/
def act (s : Slots) : Occurrence → Outcome × Slots
  | .accepted =>
    let (served, later) := s.accept
    (if served then .served s.accepted else .turnedAway s.accepted, later)
  | .ended connection crashed =>
    (if s.live.contains connection then .gaveBack connection else .nothing,
      s.finish connection crashed)
  | .reaped => (.found s.crashed, s.reap)

/-- The slots after several things have happened. -/
def after (s : Slots) (occurrences : List Occurrence) : Slots :=
  occurrences.foldl (fun s o => (s.act o).2) s

end Slots

/-- The response with which a connection is turned away. -/
def Response.atCapacity (config : Config) : Response :=
  let r := (Response.ofStatus .serviceUnavailable).withDefaults config
  (({ r with persistence := some false }.setContentType "text/plain").setText
    "Server is at capacity, please try again later").framed

/-- The link of a connection that no stop cancels. -/
def Link.unheeding (l : Link) : Link := { l with heedsStop := false, stopAt := none }

/-- What a connection does that is turned away: it writes the response, or as much of it as the link
takes, and closes. Nothing cancels the write, not even a stop. -/
def turnAway {γ : Type} (config : Config) (link : Link) : Trace γ :=
  let sent := link.unheeding.writeAll (Response.atCapacity config).encode
  Trace.stamp link.now (sent.2.1.map .wrote) ++
    match sent.1 with
    | .done | .failed _ => Connection.close sent.2.2
    | .stopped | .blocked => []

/-- What a connection does that is served, or turned away. -/
def Service.attend {γ : Type} (s : Service γ) (served : Bool) (link : Link) : Trace γ :=
  if served then Connection.serve s link else turnAway s.config link

end HttpEngine
