import HttpEngine.Proofs.Connection.Inheritance
import HttpEngine.Proofs.Message.DefaultFields
/-!
# The template of a server

A response is **made** in one of seven ways (`Service.Makes`): a stage before the handler, the
handler or a stage behind it has made it, or it is the response of a status alone, because the
target is no target, nothing or only another method is registered for it, or a fault has come up.
What a stage edits in place is made by nobody; apart from that these are all the ways there are
(`Service.makes_or_edits`).

In whichever way it was made, the response is seeded, once, and with the same configuration and
request (`Service.respond_of_makes`). So every answer has the version of the request, the fields
that were made, the default fields where none of their name was made, and nothing else but the
fields that framing sets (`Service.answer_carriesTemplate`).
-/

namespace HttpEngine

open Relation Text

variable {γ : Type}

/-! ### Fields of a seeded and framed response -/

/-- What it means that the answer to a request has been made from the **template** of a
configuration. -/
structure Response.CarriesTemplate (config : Config) (request : Request) (made answer : Response) :
    Prop where
  version_eq : answer.version = request.version
  status_eq : answer.status = made.status
  body_eq : answer.body = made.body
  length_eq : answer.field? "Content-Length" = some (decimal answer.body.length)
  /-- Every default field is there, with the value that was made if one was. -/
  default_eq : ∀ e ∈ config.defaultFields.toList, ¬ IsFramingName e.1 →
    answer.field? e.1 = some ((made.field? e.1).getD e.2)
  /-- Other fields than those that framing sets were made, or are defaults of which none was. -/
  mem_iff : ∀ e, ¬ IsFramingName e.1 →
    (e ∈ answer.fields.toList ↔ e ∈ made.fields.toList ∨
      e ∈ config.defaultFields.toList ∧ made.fields.field? e.1 = none)
  distinct : made.fields.Distinct → answer.fields.Distinct

theorem Response.carriesTemplate_framed_seed {config : Config}
    (hconfig : config.defaultFields.Distinct) (request : Request) (made : Response) :
    CarriesTemplate config request made (made.seed config request).framed where
  version_eq := version_framed _
  status_eq := status_framed _
  body_eq := body_framed _
  length_eq := by
    rw [field?_length_framed, body_framed]
  default_eq e he hname := by
    have hfound : config.defaultFields.field? e.1 = some e :=
      (Fields.DistinctNames.find?_eq_some_iff hconfig).2 ⟨he, sameFolded_refl e.1⟩
    have hseeded : (made.seed config request).fields.field? e.1 =
        (made.fields.field? e.1).or (some e) := by
      rw [← hfound]
      exact field?_withDefaults made config e.1
    rw [field?, Fields.value?_eq, field?_framed_of_not_isFramingName hname, hseeded, field?,
      Fields.value?_eq]
    cases made.fields.field? e.1 <;> rfl
  mem_iff e hname := (mem_fields_framed_iff hname).trans (mem_withDefaults_iff hconfig)
  distinct h := distinct_framed (distinct_withDefaults h config)

/-! ### How a response is made -/

namespace Service

variable {s : Service γ} {request : Request} {made : Response}

/-- That the response to a request is **made** in one of the ways of a service. -/
inductive Makes (s : Service γ) (request : Request) : Response → Prop
  /-- The target is no target. -/
  | badTarget {cause} (htarget : request.readTarget = .error cause) :
    Makes s request (.ofStatus .notFound)
  /-- No route fits. -/
  | notFound {parsed} (htarget : request.readTarget = .ok parsed)
    (hroute : s.table.resolve parsed.segments parsed.method = .notFound) :
    Makes s request (.ofStatus .notFound)
  /-- Routes fit but have other methods. -/
  | methodNotAllowed {parsed} (htarget : request.readTarget = .ok parsed)
    (hroute : s.table.resolve parsed.segments parsed.method = .methodNotAllowed) :
    Makes s request (.ofStatus .methodNotAllowed)
  /-- There is a fault. -/
  | faulted (hfaults : s.Faults request) : Makes s request (.ofStatus .internalServerError)
  /-- A stage before the handler answers. -/
  | answered {flow routed context stage rest made context₁ context₂}
    (hstart : s.Starts request flow routed context)
    (hreach : flow.Reaches (.seed s.config routed) routed context
      (.before (stage :: rest) context₁))
    (hstage : stage routed context₁ = (.ok (some made), context₂)) : Makes s request made
  /-- The handler answers, and the response leaves the flow as it was seeded. -/
  | handled {flow routed context made context₁ context₂ context₃}
    (hstart : s.Starts request flow routed context)
    (hreach : flow.Reaches (.seed s.config routed) routed context (.before [] context₁))
    (hhandler : flow.handler routed context₁ = (.ok made, context₂))
    (hdone : flow.Reaches (.seed s.config routed) routed context
      (.after [] (made.seed s.config routed) context₃)) : Makes s request made
  /-- A stage after the handler answers in its place. -/
  | replaced {flow routed context stage rest response made context₁ context₂}
    (hstart : s.Starts request flow routed context)
    (hreach : flow.Reaches (.seed s.config routed) routed context
      (.after (stage :: rest) response context₁))
    (hstage : stage response context₁ = (.ok (.replaced made), context₂)) : Makes s request made

/-- That a stage **edits** the response to a request in place: it leaves its flow otherwise than the
handler has made it and it was seeded. -/
inductive Edits (s : Service γ) (request : Request) : Prop
  | edited {flow routed context made response context₁ context₂ context₃}
    (hstart : s.Starts request flow routed context)
    (hreach : flow.Reaches (.seed s.config routed) routed context (.before [] context₁))
    (hhandler : flow.handler routed context₁ = (.ok made, context₂))
    (hdone : flow.Reaches (.seed s.config routed) routed context (.after [] response context₃))
    (hne : response ≠ made.seed s.config routed)

theorem Starts.seed_eq {flow : Flow γ} {routed : Request} {context : γ}
    (h : s.Starts request flow routed context) (r : Response) :
    r.seed s.config routed = r.seed s.config request := by
  obtain ⟨parsed, route, params, htarget, -, -, rfl⟩ := h.resolves
  exact Response.seed_of_readTarget r s.config params htarget

/-- **Made once, seeded once.** In whichever way a response is made, it is seeded and no more. -/
theorem respond_of_makes (h : s.Makes request made) :
    (s.respond request).1 = made.seed s.config request := by
  cases h with
  | badTarget htarget => simp only [respond, htarget, Response.bare]
  | notFound htarget hroute =>
    simp only [respond, htarget, hroute]
    exact Response.seed_of_readTarget _ _ ∅ htarget
  | methodNotAllowed htarget hroute =>
    simp only [respond, htarget, hroute]
    exact Response.seed_of_readTarget _ _ ∅ htarget
  | faulted hfaults => exact respond_of_faults hfaults
  | answered hstart hreach hstage =>
    rw [hstart.respond_eq (Flow.runSeeded_eq_iff.2 ⟨_, hreach, .answered hstage⟩), hstart.seed_eq]
  | handled hstart _ _ hdone =>
    rw [hstart.respond_eq (Flow.runSeeded_eq_iff.2 ⟨_, hdone, .done⟩), hstart.seed_eq]
  | replaced hstart hreach hstage =>
    rw [hstart.respond_eq (Flow.runSeeded_eq_iff.2 ⟨_, hreach, .replaced hstage⟩), hstart.seed_eq]

/-- What comes of a flow that is started is made, unless it is edited. -/
theorem Starts.makes_or_edits {flow : Flow γ} {routed : Request} {context : γ}
    (h : s.Starts request flow routed context) :
    (∃ made, s.Makes request made) ∨ s.Edits request := by
  obtain ⟨p, hreach, hends⟩ : ∃ p, flow.Reaches (.seed s.config routed) routed context p ∧
      Flow.Ends flow (.seed s.config routed) routed p
        (flow.runSeeded (.seed s.config routed) routed context) := Flow.runSeeded_eq_iff.1 rfl
  have hfaults : flow.Faults (.seed s.config routed) routed context → s.Faults request := by
    obtain ⟨parsed, route, params, htarget, hroute, rfl, rfl⟩ := h.resolves
    exact fun hflow => .running htarget hroute h.builds hflow
  generalize flow.runSeeded (.seed s.config routed) routed context = out at hends
  cases hends with
  | answered hstage => exact .inl ⟨_, .answered h hreach hstage⟩
  | failedBefore hstage =>
    exact .inl ⟨_, .faulted (hfaults ⟨_, _, _, hreach, .failedBefore hstage⟩)⟩
  | failedHandler hhandler =>
    exact .inl ⟨_, .faulted (hfaults ⟨_, _, _, hreach, .failedHandler hhandler⟩)⟩
  | replaced hstage => exact .inl ⟨_, .replaced h hreach hstage⟩
  | failedAfter hstage =>
    exact .inl ⟨_, .faulted (hfaults ⟨_, _, _, hreach, .failedAfter hstage⟩)⟩
  | @done response =>
    obtain ⟨made, context₁, context₂, hbefore, hhandler⟩ := Flow.exists_handler_of_reaches hreach
    -- A flow that ran to its end has the response of its handler, unless it was edited on the way.
    by_cases hsame : response = made.seed s.config routed
    · subst hsame
      exact .inl ⟨made, .handled h hbefore hhandler hreach⟩
    · exact .inr (.edited h hbefore hhandler hreach hsame)

/-- **All the ways there are.** A response is made, or a stage edits it in place. -/
theorem makes_or_edits (s : Service γ) (request : Request) :
    (∃ made, s.Makes request made) ∨ s.Edits request := by
  cases htarget : request.readTarget with
  | error cause => exact .inl ⟨_, .badTarget htarget⟩
  | ok parsed =>
    cases hroute : s.table.resolve parsed.segments parsed.method with
    | notFound => exact .inl ⟨_, .notFound htarget hroute⟩
    | methodNotAllowed => exact .inl ⟨_, .methodNotAllowed htarget hroute⟩
    | found route params =>
      cases hcontext : s.context with
      | error fault => exact .inl ⟨_, .faulted (.building htarget hroute hcontext)⟩
      | ok context =>
        have hstart : s.Starts request route.flow { parsed with params := params } context :=
          ⟨⟨parsed, route, params, htarget, hroute, rfl, rfl⟩, hcontext⟩
        exact hstart.makes_or_edits

/-- **Every answer carries the template.** Let no two default fields of a service have the same name
up to case. The response to each request is made in one of the ways of the service, unless a stage
edits it in place; and in whichever way it was made, its answer carries the template. -/
theorem answer_carriesTemplate (s : Service γ) (hconfig : s.config.defaultFields.Distinct)
    (request : Request) :
    ((∃ made, s.Makes request made) ∨ s.Edits request) ∧
      ∀ made, s.Makes request made →
        Response.CarriesTemplate s.config request made (s.answer request) := by
  refine ⟨s.makes_or_edits request, fun made hmade => ?_⟩
  rw [answer, respond_of_makes hmade]
  exact Response.carriesTemplate_framed_seed hconfig request made

/-! A flow whose handler sets a default field itself, in another spelling. -/

/-- Its stages let every request and every response pass. -/
def signedFlow : Flow Unit where
  before := [fun _ n => (.ok none, n)]
  handler := fun _ n => (.ok (((Response.ofStatus .ok).setField "server" "mine").setText "x"), n)
  after := [fun response n => (.ok (.edited response), n)]

/-- A service with that flow and two default fields. -/
def signedService : Service Unit where
  config := Config.withDefault {} "X-Frame-Options" "DENY"
  table := { routes := [⟨"/", .get, signedFlow⟩] }
  context := .ok ()

/-- The answer to a request of the older version keeps the field that the handler has set. -/
theorem answer_signedService :
    let request : Request := { method := .get, target := "/", version := .http10, fields := ∅ }
    let made := ((Response.ofStatus .ok).setField "server" "mine").setText "x"
    signedService.config.defaultFields.Distinct ∧ signedService.Makes request made ∧
      Response.CarriesTemplate signedService.config request made (signedService.answer request) ∧
      (signedService.answer request).fields.toList =
        [("Content-Length", "1"), ("X-Frame-Options", "DENY"), ("server", "mine")] := by
  intro request made
  have hconfig : signedService.config.defaultFields.Distinct := by
    rw [Fields.Distinct]
    decide
  have hstart : signedService.Starts request signedFlow request () :=
    starts_of_root signedService.config signedFlow () .http10 ∅
  have hbefore : signedFlow.Reaches (.seed signedService.config request) request ()
      (.before [] ()) := .single (.pass rfl)
  have hdone : signedFlow.Reaches (.seed signedService.config request) request ()
      (.after [] (made.seed signedService.config request) ()) :=
    .tail (.tail hbefore (.handle rfl)) (.edit rfl)
  have hmakes : signedService.Makes request made := .handled hstart hbefore rfl hdone
  refine ⟨hconfig, hmakes, (answer_carriesTemplate _ hconfig request).2 made hmakes, ?_⟩
  decide

end Service

end HttpEngine
