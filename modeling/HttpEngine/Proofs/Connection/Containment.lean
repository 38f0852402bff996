import HttpEngine.Proofs.Connection.Conversation
import HttpEngine.Proofs.Connection.Rounds
import HttpEngine.Proofs.Message.Framed
import HttpEngine.Proofs.Pipeline.Steps
/-!
# Contained faults

A service **faults** on a request (`Service.Faults`) when the request resolves to a route and then
the context cannot be built, or a stage fails that the flow of the route comes to, wherever it
stands and whatever has been done to the context and the response before.

Every fault is **contained** (`Service.Contained`, `Service.contained_of_faults`). The answer is the
bare internal error, which looks at the request and the configuration and at nothing that the flow
has done. So all faults on a request are answered with the same bytes, and a peer cannot tell two
services apart that fault on it and answer everything else alike. The connection goes on as the
request asks: a fault neither closes it nor keeps it open, and the requests behind are answered as
if they had come alone.
-/

namespace HttpEngine

open Connection

variable {γ : Type}

/-! ### Requests on which a service faults -/

/-- A service **faults** on a request that resolves to a route when the context cannot be built, or
when the flow of the route, started in the context, comes to a stage that fails. -/
inductive Service.Faults (s : Service γ) (request : Request) : Prop
  | building {parsed route params fault} (htarget : request.readTarget = .ok parsed)
    (hroute : s.table.resolve parsed.segments parsed.method = .found route params)
    (hcontext : s.context = .error fault)
  | running {parsed route params context} (htarget : request.readTarget = .ok parsed)
    (hroute : s.table.resolve parsed.segments parsed.method = .found route params)
    (hcontext : s.context = .ok context)
    (hflow : route.flow.Faults (Response.seed s.config { parsed with params := params })
      { parsed with params := params } context)

theorem Request.eq_of_readTarget (request : Request) {parsed : Request}
    (h : request.readTarget = .ok parsed) : ∃ target, parsed = request.withTarget target := by
  rw [readTarget] at h
  split at h
  · exact ⟨_, (Except.ok.inj h).symm⟩
  · simp at h

namespace Response

/-- A seed looks at the version and the fields of a request only, which are left as they are when its
target is read. -/
theorem seed_of_readTarget {request parsed : Request} (r : Response) (config : Config)
    (params : TextMap) (h : request.readTarget = .ok parsed) :
    r.seed config { parsed with params := params } = r.seed config request := by
  obtain ⟨target, rfl⟩ := request.eq_of_readTarget h
  rfl

@[simp] theorem persists_bare (status : Status) (config : Config) (request : Request) :
    (bare status config request).persists = request.persists := rfl

@[simp] theorem body_bare (status : Status) (config : Config) (request : Request) :
    (bare status config request).body = [] := rfl

end Response

/-! ### Containment -/

namespace Service

/-- The answer to every fault on a request. -/
def faultAnswer (config : Config) (request : Request) : Response :=
  (Response.bare .internalServerError config request).framed

/-- What it means that a fault on a request is **contained**. -/
structure Contained (s : Service γ) (request : Request) : Prop where
  /-- Whatever the flow has built is dropped for the bare internal error. -/
  response_eq : (s.respond request).1 = Response.bare .internalServerError s.config request
  answer_eq : s.answer request = faultAnswer s.config request
  body_eq_nil : (s.answer request).body = []
  /-- The request alone decides whether the connection persists. -/
  persists_eq : (s.answer request).persists = request.persists
  /-- Every fault, of whatever service, is answered with the same bytes. -/
  encode_eq : ∀ {δ : Type} (s' : Service δ), s'.config = s.config → s'.Faults request →
    (s'.answer request).encode = (s.answer request).encode
  /-- No connection shows its peer which of two services that fault it belongs to: it does the same
  things at the same times, and writes the same bytes. -/
  same_outward : ∀ s' : Service γ, s'.config = s.config → s'.Faults request →
    (∀ other, other ≠ request → s'.answer other = s.answer other) →
    ∀ inbox link, (serveFrom s' inbox link).outward = (serveFrom s inbox link).outward ∧
      (serveFrom s' inbox link).written = (serveFrom s inbox link).written
  /-- A connection that receives the request sends that answer, and then serves on or closes as the
  request asks. -/
  serveFrom_eq : ∀ inbox link,
    (Reception.receive (γ := γ) s.config inbox link).result = .request request →
    serveFrom s inbox link =
      let got : Reception γ := Reception.receive s.config inbox link
      let sent : Sending γ := send got.link (faultAnswer s.config request).encode
      got.trace ++ Trace.stamp got.link.now (s.respond request).2 ++ sent.trace ++
        goOn s request.persists got.inbox sent
  /-- On a link that nothing disturbs, the rest of the stream is answered as if it had come alone. -/
  written_eq : ∀ {inbox : Inbox} {link : Link} {n : Nat}, inbox.Current →
    inbox.buffer.size ≤ s.config.bufferLimit → link.Undisturbed →
    Note.noRequestWithin s.config.requestTimeout ∉ (serveFrom s inbox link).notes →
    Decoding.ofBytes (inbox.buffer.toList ++ link.toArrive) = .complete request n →
    n ≤ s.config.bufferLimit →
    (serveFrom s inbox link).written = (faultAnswer s.config request).encode ++
      if request.persists then
        s.conversation ((inbox.buffer.toList ++ link.toArrive).drop n)
      else []

variable {s : Service γ} {request : Request}

/-- A fault is answered with the bare internal error. -/
theorem respond_of_faults (h : s.Faults request) :
    (s.respond request).1 = Response.bare .internalServerError s.config request := by
  cases h with
  | building htarget hroute hcontext =>
    simp only [respond, htarget, hroute, runFlow, hcontext, contain]
    exact Response.seed_of_readTarget _ _ _ htarget
  | running htarget hroute hcontext hflow =>
    obtain ⟨fault, context', hrun⟩ := Flow.faults_iff.1 hflow
    simp only [respond, htarget, hroute, runFlow, hcontext, hrun, contain]
    exact Response.seed_of_readTarget _ _ _ htarget

theorem answer_of_faults (h : s.Faults request) :
    s.answer request = faultAnswer s.config request := by
  rw [answer, respond_of_faults h, faultAnswer]

theorem persists_faultAnswer (config : Config) (request : Request) :
    (faultAnswer config request).persists = request.persists := by
  rw [faultAnswer, Response.persists_framed, Response.persists_bare]

/-- **Faults are contained.** -/
theorem contained_of_faults (h : s.Faults request) : s.Contained request := by
  have hanswer := answer_of_faults h
  have hpersists : (s.answer request).persists = request.persists := by
    rw [hanswer, persists_faultAnswer]
  refine
    { response_eq := respond_of_faults h
      answer_eq := hanswer
      body_eq_nil := ?_
      persists_eq := hpersists
      encode_eq := ?_
      same_outward := ?_
      serveFrom_eq := ?_
      written_eq := ?_ }
  · rw [hanswer, faultAnswer, Response.body_framed, Response.body_bare]
  · intro δ s' hconfig h'
    rw [answer_of_faults h', hanswer, hconfig]
  · intro s' hconfig h' hother inbox link
    have hanswers : ∀ r, s'.answer r = s.answer r := by
      intro r
      by_cases hr : r = request
      · rw [hr, answer_of_faults h', hanswer, hconfig]
      · exact hother r hr
    have houtward := outward_serveFrom_congr hconfig hanswers inbox link
    refine ⟨houtward, ?_⟩
    rw [← Trace.written_outward, houtward, Trace.written_outward]
  · intro inbox link hreceived
    rw [serveFrom_of_request hreceived, hpersists, hanswer]
  · intro inbox link n hi hsize hl hlate hof hn
    rw [written_serveFrom s hi hsize hl hlate, conversation_of_complete hof hn, hpersists, hanswer]

/-! A flow that edits the response and then crashes. -/

/-- It counts its stages in the context, and is broken off by the last of them. -/
def brokenFlow : Flow Nat where
  before := [fun _ n => (.ok none, n + 1)]
  handler := fun _ n => (.ok ((Response.ofStatus .ok).setText "secret"), n + 1)
  after :=
    [fun response n => (.ok (.edited (response.setField "X-Secret" "1")), n + 1),
      fun _ n => (.error (.crashed (some "secret")), n + 1)]

/-- A service with that flow on a path with a parameter. -/
def brokenService : Service Nat where
  table := { routes := [⟨"/a/:id", .get, brokenFlow⟩] }
  context := .ok 0

def brokenRequest : Request where
  method := .get
  target := "/a/7"
  version := .http11
  fields := ∅

theorem faults_brokenService : brokenService.Faults brokenRequest := by
  have htarget : brokenRequest.readTarget = .ok { brokenRequest with segments := ["a", "7"] } := by
    decide
  have hbind : Route.bind ⟨"/a/:id", .get, brokenFlow⟩ ["a", "7"] =
      some (TextMap.ofList [("id", "7")]) := by
    decide
  have hroute : brokenService.table.resolve ["a", "7"] .get =
      .found ⟨"/a/:id", .get, brokenFlow⟩ (TextMap.ofList [("id", "7")]) := by
    rw [RouteTable.resolve, brokenService, RouteTable.resolveFrom, hbind]
    exact if_pos rfl
  exact .running htarget hroute rfl (Flow.faults_iff.2 ⟨.crashed (some "secret"), 4, rfl⟩)

/-- Nothing of what the flow has made is in its answer. -/
theorem contained_brokenService : brokenService.Contained brokenRequest :=
  contained_of_faults faults_brokenService

end Service

end HttpEngine
