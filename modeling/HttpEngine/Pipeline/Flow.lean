import HttpEngine.Message.Response
import HttpEngine.ServiceError
/-!
# Flows

A **flow** is what a route does with a request: stages before the handler, the handler, and
stages after it, all sharing one context. A stage before the handler may answer in its place; a
stage after it edits the response, or answers in its place. The first stage that answers or fails
is the last one to run.

Every response that a stage makes passes through a **seed** before anything else sees it, so the
stages after the handler edit a seeded response, and an edited response is not seeded again.

A stage is a function of the request or response and the context. Its context survives a failure,
so that what a flow did before it failed can still be told.
-/

namespace HttpEngine

open Text

/-- How a stage ends without a result. -/
inductive Fault where
  /-- The stage reports a failure. -/
  | failed (cause : ServiceError)
  /-- The stage is broken off, perhaps with a text. -/
  | crashed (text : Option String)
  deriving DecidableEq, Repr

/-- What a stage after the handler makes of the response. -/
inductive Outcome where
  /-- The response, perhaps edited; the next stage goes on with it. -/
  | edited (r : Response)
  /-- Another response in its place, which ends the flow. -/
  | replaced (r : Response)
  deriving DecidableEq

/-- A computation of a stage: its result or fault, and the context afterwards. -/
abbrev Staged (γ α : Type) := γ → Except Fault α × γ

/-- What a route does with a request. -/
structure Flow (γ : Type) where
  /-- The stages before the handler, in order. -/
  before : List (Request → Staged γ (Option Response)) := []
  handler : Request → Staged γ Response
  /-- The stages after the handler, in order. -/
  after : List (Response → Staged γ Outcome) := []

namespace Flow

variable {γ : Type}

/-- Runs stages before the handler, up to the first that answers or fails. -/
def runBefore (request : Request) :
    List (Request → Staged γ (Option Response)) → Staged γ (Option Response)
  | [], ctx => (.ok none, ctx)
  | stage :: rest, ctx =>
    match stage request ctx with
    | (.ok none, ctx) => runBefore request rest ctx
    | (result, ctx) => (result, ctx)

/-- Runs stages after the handler, up to the first that answers or fails. -/
def runAfter (seed : Response → Response) :
    List (Response → Staged γ Outcome) → Response → Staged γ Response
  | [], response, ctx => (.ok response, ctx)
  | stage :: rest, response, ctx =>
    match stage response ctx with
    | (.ok (.edited response), ctx) => runAfter seed rest response ctx
    | (.ok (.replaced response), ctx) => (.ok (seed response), ctx)
    | (.error fault, ctx) => (.error fault, ctx)

/-- Runs a flow, passing every response that a stage makes through `seed`. -/
def runSeeded (flow : Flow γ) (seed : Response → Response) (request : Request) :
    Staged γ Response := fun ctx =>
  match runBefore request flow.before ctx with
  | (.ok (some response), ctx) => (.ok (seed response), ctx)
  | (.error fault, ctx) => (.error fault, ctx)
  | (.ok none, ctx) =>
    match flow.handler request ctx with
    | (.error fault, ctx) => (.error fault, ctx)
    | (.ok response, ctx) => runAfter seed flow.after (seed response) ctx

/-- Runs a flow. -/
def run (flow : Flow γ) (request : Request) : Staged γ Response :=
  flow.runSeeded id request

/-- A flow as it is shown: how many stages stand before and after its handler. -/
def summary (flow : Flow γ) : String :=
  "HandlerFlow \x7b pre_request: " ++ decimal flow.before.length ++ ", post_request: " ++
    decimal flow.after.length ++ " \x7d"

end Flow

end HttpEngine
