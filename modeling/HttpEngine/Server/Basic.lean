import HttpEngine.Server.Session
import HttpEngine.Server.Signals
/-!
# Servers

A **server** gathers a service and the handle by which it is stopped. Routes and the context
builder are changed while it does not run. Running it listens at its address, which fails if that
is in use, serves until it is stopped, and cannot be repeated: a server that was stopped, before
or by the end of an earlier run, does not listen again and reports no failure.
-/

namespace HttpEngine

/-- A server. -/
structure Server (γ : Type) where
  service : Service γ
  /-- The family of its handle, which is family zero. -/
  signals : Signals := Signals.single

namespace Server

variable {γ : Type}

/-- Whether the server has been stopped. -/
def isStopped (s : Server γ) : Bool := (s.signals.family 0).stopped

/-- Whether the server is listening. -/
def isListening (s : Server γ) : Bool := (s.signals.family 0).listening

/-- Stops the server. -/
def stop (s : Server γ) : Server γ := { s with signals := s.signals.stop 0 }

/-- Records whether the server is listening. -/
def setListening (s : Server γ) (listening : Bool) : Server γ :=
  { s with signals := s.signals.setListening 0 listening }

/-- Changes the route table. -/
def setTable (s : Server γ) (table : RouteTable γ) : Server γ :=
  { s with service := { s.service with table } }

/-- Makes the route table strict. -/
def refuseDuplicates (s : Server γ) : Server γ := s.setTable (s.service.table.setStrict true)

/-- Registers a route. -/
def register (s : Server γ) (route : Route γ) : Server γ := s.setTable (s.service.table.add route)

/-- Registers a route unless the table refuses it. -/
def tryRegister (s : Server γ) (route : Route γ) : Except ServiceError (Server γ) :=
  (s.service.table.tryAdd route).map s.setTable

/-- Removes a route. -/
def unregister (s : Server γ) (path : String) (method : Method) : Server γ :=
  s.setTable (s.service.table.remove path method)

/-- Changes the context in which flows start. -/
def setContext (s : Server γ) (context : Except Fault γ) : Server γ :=
  { s with service := { s.service with context } }

/-- What comes of running a server. -/
structure Run (γ : Type) where
  /-- What the session answered, if the server listened. -/
  session : Option (List SessionAnswer)
  result : Except ServiceError Unit
  server : Server γ

/-- Runs a server against a session of clients and stops it at the end, where `occupied` tells
whether its address is in use and `reachable` whether clients can reach it. A server whose address
is in use has not started, and so is not stopped either. -/
def run (s : Server γ) (occupied reachable : Bool) (steps : List SessionStep) : Run γ :=
  if s.isStopped then ⟨none, .ok (), s⟩
  else if occupied then ⟨none, .error .addressInUse, s⟩
  else
    let listening := s.setListening true
    let answers := (Session.start listening.service reachable).run steps
    ⟨some answers, .ok (), (listening.setListening false).stop⟩

end Server

end HttpEngine
