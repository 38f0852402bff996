import HttpEngine.Connection.Trace
import HttpEngine.Routing.Table
/-!
# Answering a request

What the connections of a server share is its **service**: a configuration, a route table and a
way to build a context. It turns every request into a response. The target is parsed and resolved,
the flow of the route that is found runs on a fresh context, and the response that comes of it is
framed. A target that cannot be parsed is not found.

A **fault** of the context builder or of any stage is contained: whatever response was being built
is dropped, and the answer is the bare response of an internal error, the same for every fault.
-/

namespace HttpEngine

/-- What the connections of a server share. -/
structure Service (γ : Type) where
  config : Config := {}
  table : RouteTable γ := {}
  /-- The context in which a flow starts, or the fault of building it. -/
  context : Except Fault γ

namespace Service

variable {γ : Type}

/-- The response with which a fault is answered, and the note that is left. -/
def contain (s : Service γ) (request : Request) (fault : Fault) : Response × Note :=
  (Response.bare .internalServerError s.config request,
    match fault with
    | .failed cause => .handlerFailed request.method request.target cause
    | .crashed text => .handlerCrashed request.method request.target text)

/-- Runs a flow on a fresh context. -/
def runFlow (s : Service γ) (flow : Flow γ) (request : Request) : Response × List (Event γ) :=
  match s.context with
  | .error fault =>
    ((s.contain request fault).1, [.ran none, .noted (s.contain request fault).2])
  | .ok context =>
    match flow.runSeeded (Response.seed s.config request) request context with
    | (.ok response, context) => (response, [.ran (some context)])
    | (.error fault, context) =>
      ((s.contain request fault).1,
        [.ran (some context), .noted (s.contain request fault).2])

/-- The response to a request before it is framed, and what happens on the way. -/
def respond (s : Service γ) (request : Request) : Response × List (Event γ) :=
  match request.readTarget with
  | .error cause => (Response.bare .notFound s.config request, [.noted (.badTarget cause)])
  | .ok request =>
    match s.table.resolve request.segments request.method with
    | .found route params => s.runFlow route.flow { request with params := params }
    | .notFound => (Response.bare .notFound s.config request, [])
    | .methodNotAllowed => (Response.bare .methodNotAllowed s.config request, [])

/-- The response to a request. -/
def answer (s : Service γ) (request : Request) : Response := (s.respond request).1.framed

end Service

end HttpEngine
