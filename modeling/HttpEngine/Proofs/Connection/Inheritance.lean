import HttpEngine.Proofs.Connection.Containment
import HttpEngine.Proofs.Message.Framed
import HttpEngine.Proofs.Pipeline.Steps
/-!
# Whose choice it is that a connection persists

A response that makes no choice about the connection takes over the request's when it is seeded. So
every response behind the handler makes a choice: the one of the stage that made it, or else the
request's. The stages after the handler go on to edit it in place, and an edit may take the choice
away again (`Flow.DropsChoice`). No other stage can, since whatever they make is seeded
(`Flow.dropsChoice_of_persistence_eq_none`).

A response that leaves its flow with a choice decides the connection by it. One that leaves without
a choice is not seeded a second time. It goes by the default of its version, which is what the
request asks unless the request departs from that default
(`Service.persists_answer_iff_of_starts`). So a request to close is forgotten along with the choice
(`Service.persists_against_request`).
-/

namespace HttpEngine

open Connection Relation Text

variable {γ : Type}

/-! ### Flows that drop the choice -/

namespace Flow

variable {flow : Flow γ} {seed : Response → Response} {request : Request} {context : γ}

/-- A flow **drops the choice** when it comes to a stage that edits a response which makes a choice
about the connection into one that makes none. -/
def DropsChoice (flow : Flow γ) (seed : Response → Response) (request : Request) (context : γ) :
    Prop :=
  ∃ stage rest response response' context₁ context₂,
    flow.Reaches seed request context (.after (stage :: rest) response context₁) ∧
      stage response context₁ = (.ok (.edited response'), context₂) ∧
      response.persistence ≠ none ∧ response'.persistence = none

/-- That the response at a point, where there is one yet, makes a choice about the connection. -/
def Point.Chooses : Point γ → Prop
  | .before _ _ => True
  | .after _ response _ => response.persistence ≠ none

/-- One step behind a response that makes a choice there is one, or the step has dropped it. -/
theorem chooses_of_step {p q : Point γ} (hseed : ∀ r, (seed r).persistence ≠ none)
    (hreach : flow.Reaches seed request context p) (hp : p.Chooses)
    (h : Step flow seed request p q) : q.Chooses ∨ flow.DropsChoice seed request context := by
  cases h with
  | pass => exact .inl trivial
  | handle => exact .inl (hseed _)
  | @edit stage rest response response' context₁ context₂ hstage =>
    by_cases hnone : response'.persistence = none
    · exact .inr ⟨stage, rest, response, response', context₁, context₂, hreach, hstage, hp, hnone⟩
    · exact .inl hnone

theorem chooses_of_reaches {p : Point γ} (hseed : ∀ r, (seed r).persistence ≠ none)
    (h : flow.Reaches seed request context p) :
    p.Chooses ∨ flow.DropsChoice seed request context := by
  induction h with
  | refl => exact .inl trivial
  | tail hreach hstep ih =>
    rcases ih with hp | hdrops
    · exact chooses_of_step hseed hreach hp hstep
    · exact .inr hdrops

/-- **Only an edit drops the choice.** A response that leaves a flow without a choice has lost it to
a stage after the handler, whatever the stages before have made. -/
theorem dropsChoice_of_persistence_eq_none {r : Response} {context' : γ}
    (hseed : ∀ r, (seed r).persistence ≠ none)
    (hrun : flow.runSeeded seed request context = (.ok r, context')) (hr : r.persistence = none) :
    flow.DropsChoice seed request context := by
  obtain ⟨p, hreach, hends⟩ := runSeeded_eq_iff.1 hrun
  cases hends with
  | answered => exact absurd hr (hseed _)
  | replaced => exact absurd hr (hseed _)
  | done =>
    rcases chooses_of_reaches hseed hreach with hchooses | hdrops
    · exact absurd hr hchooses
    · exact hdrops

end Flow

/-! ### Requests that start a flow -/

/-- A request **starts** a flow when it resolves to the route of the flow and a context is built.
The flow is run on the routed request. -/
structure Service.Starts (s : Service γ) (request : Request) (flow : Flow γ) (routed : Request)
    (context : γ) : Prop where
  resolves : ∃ parsed route params, request.readTarget = .ok parsed ∧
    s.table.resolve parsed.segments parsed.method = .found route params ∧
    flow = route.flow ∧ routed = { parsed with params := params }
  builds : s.context = .ok context

namespace Service

variable {s : Service γ} {request routed : Request} {flow : Flow γ} {context context' : γ}
  {r : Response}

/-- Reading the target and routing leave what the request asks of the connection. -/
theorem Starts.persists_routed (h : s.Starts request flow routed context) :
    routed.persists = request.persists := by
  obtain ⟨parsed, route, params, htarget, -, -, rfl⟩ := h.resolves
  obtain ⟨target, rfl⟩ := request.eq_of_readTarget htarget
  rfl

/-- Seeding keeps a choice and takes over the request's where there is none. -/
theorem Starts.persistence_seed (h : s.Starts request flow routed context) (r : Response) :
    (r.seed s.config routed).persistence = some (r.persistence.getD request.persists) := by
  rw [← h.persists_routed]
  rfl

/-- What leaves the flow is the response to the request. -/
theorem Starts.respond_eq (h : s.Starts request flow routed context)
    (hrun : flow.runSeeded (Response.seed s.config routed) routed context = (.ok r, context')) :
    (s.respond request).1 = r := by
  obtain ⟨parsed, route, params, htarget, hroute, rfl, rfl⟩ := h.resolves
  simp only [respond, htarget, hroute, runFlow, h.builds, hrun]

theorem Starts.persists_answer (h : s.Starts request flow routed context)
    (hrun : flow.runSeeded (Response.seed s.config routed) routed context = (.ok r, context')) :
    (s.answer request).persists = r.persistence.getD r.version.persists := by
  rw [answer, Response.persists_framed, h.respond_eq hrun, Response.persists]

/-- **When the request decides.** Let a response leave the flow that a request starts. The
connection persists as the response chooses, and as the request asks where it makes no choice, just
if a response without a choice has a version whose default is what the request asks. With a choice
it always does. Without one it goes by the default of the version, and some stage after the handler
has edited the choice away. What the answer persists is what the connection does: once the answer is
sent, it serves on or closes. -/
theorem persists_answer_iff_of_starts (hstart : s.Starts request flow routed context)
    (hrun : flow.runSeeded (Response.seed s.config routed) routed context = (.ok r, context')) :
    ((s.answer request).persists = r.persistence.getD request.persists ↔
        (r.persistence = none → r.version.persists = request.persists)) ∧
      (∀ choice, r.persistence = some choice → (s.answer request).persists = choice) ∧
      (r.persistence = none → (s.answer request).persists = r.version.persists ∧
        flow.DropsChoice (Response.seed s.config routed) routed context) ∧
      ∀ inbox link,
        let got : Reception γ := Reception.receive s.config inbox link
        let sent : Sending γ := send got.link (s.answer request).encode
        got.result = .request request → sent.result = .done →
          serveFrom s inbox link =
            got.trace ++ Trace.stamp got.link.now (s.respond request).2 ++ sent.trace ++
              if (s.answer request).persists then serveFrom s got.inbox sent.link
              else close sent.link := by
  have hseed : ∀ r, (Response.seed s.config routed r).persistence ≠ none := fun r => by
    rw [hstart.persistence_seed]
    exact Option.some_ne_none _
  refine ⟨?_, fun choice hchoice => ?_, fun hnone => ⟨?_, ?_⟩, ?_⟩
  · rw [hstart.persists_answer hrun]
    cases r.persistence with
    | none => simp
    | some choice => simp
  · rw [hstart.persists_answer hrun, hchoice, Option.getD_some]
  · rw [hstart.persists_answer hrun, hnone, Option.getD_none]
  · exact Flow.dropsChoice_of_persistence_eq_none hseed hrun hnone
  · intro inbox link got sent hgot hsent
    rw [serveFrom_of_request hgot]
    change _ ++ goOn s (s.answer request).persists got.inbox sent = _
    rw [goOn, hsent]

/-- A flow that is the only one, for the root and one method, is started there. -/
theorem starts_of_root (config : Config) (flow : Flow γ) (context : γ) (version : Version)
    (fields : Fields) :
    let request : Request := { method := .get, target := "/", version, fields }
    let s : Service γ := { config, table := { routes := [⟨"/", .get, flow⟩] }, context := .ok context }
    s.Starts request flow request context := by
  intro request s
  have htarget : Target.parse "/" = .ok ⟨"/", [], none, ∅⟩ := by rfl
  have hread : request.readTarget = .ok request := by
    simp only [request, Request.readTarget, htarget]
    rfl
  have hbind : (Template.ofPath "/").bind [] = some ∅ := by decide
  have hroute : s.table.resolve [] .get = .found ⟨"/", .get, flow⟩ ∅ := by
    rw [RouteTable.resolve, RouteTable.resolveFrom, Route.bind, hbind]
    exact if_pos rfl
  exact ⟨⟨request, ⟨"/", .get, flow⟩, ∅, hread, hroute, rfl, rfl⟩, rfl⟩

/-! A flow whose last stage takes the choice away. -/

/-- It leaves the connection to the version. -/
def undecidedFlow : Flow Unit where
  handler := fun _ n => (.ok ((Response.ofStatus .ok).setText "x"), n)
  after := [fun response n => (.ok (.edited { response with persistence := none }), n)]

/-- A service with that flow. -/
def undecidedService : Service Unit where
  table := { routes := [⟨"/", .get, undecidedFlow⟩] }
  context := .ok ()

/-- A request for that flow. -/
def undecidedRequest (fields : Fields) : Request where
  method := .get
  target := "/"
  version := .http11
  fields

theorem starts_undecidedService (fields : Fields) :
    undecidedService.Starts (undecidedRequest fields) undecidedFlow (undecidedRequest fields) () :=
  starts_of_root {} undecidedFlow () .http11 fields

/-- A request that asks for the default is followed where the choice is dropped. -/
theorem persists_answer_undecided :
    undecidedService.Starts (undecidedRequest ∅) undecidedFlow (undecidedRequest ∅) () ∧
      (undecidedService.answer (undecidedRequest ∅)).persists = (undecidedRequest ∅).persists := by
  have hstart := starts_undecidedService ∅
  exact ⟨hstart, (persists_answer_iff_of_starts hstart rfl).1.2 fun _ => rfl⟩

/-- A request to close is not. It comes with another such request, and both are answered. -/
theorem persists_against_request :
    let request := undecidedRequest (TextMap.ofList [("Connection", "close")])
    let stream := Utf8.bytesOf
      "GET / HTTP/1.1\r\nConnection: close\r\n\r\nGET / HTTP/1.1\r\nConnection: close\r\n\r\n"
    Decoding.ofBytes stream = .complete request 37 ∧
      undecidedService.Starts request undecidedFlow request () ∧
      (∃ r, undecidedFlow.runSeeded (Response.seed undecidedService.config request) request () =
        (.ok r, ()) ∧ r.persistence = none) ∧
      request.persists = false ∧ (undecidedService.answer request).persists = true ∧
      (serve undecidedService { arrivals := [.data stream] }).written =
        (undecidedService.answer request).encode ++ (undecidedService.answer request).encode := by
  refine ⟨?_, starts_undecidedService _, ⟨_, rfl, rfl⟩, ?_, ?_, ?_⟩
  · decide +kernel
  · decide +kernel
  · decide +kernel
  · decide +kernel

end Service

end HttpEngine
