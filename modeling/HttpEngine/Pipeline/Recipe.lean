import HttpEngine.Pipeline.Flow
/-!
# Flows described by data

A **recipe** describes a flow without any code: each stage says what it notes, whether it fails,
and what it answers. The context of a recipe's flow is a **trail**, the list of the notes that its
stages have left, oldest first.

A stage acts in a fixed order. A stage after the handler first edits the response; then every
stage leaves its note and fails if it is to fail; then a stage before the handler lets a request
with a certain field pass; then the stage answers. A stage other than the handler that has no
answer lets the flow go on, and a handler without one answers an empty response.
-/

namespace HttpEngine.Recipe

open Text

/-- The notes that the stages of a flow have left, oldest first. -/
abbrev Trail := List String

/-- A piece of a body. Where there is no request, what it would say of one is empty. -/
inductive Piece where
  | text (s : String)
  | param (name : String)
  | query (name : String)
  | field (name : String)
  | target
  | method
  | body
  | segments
  | params
  | trail
  deriving DecidableEq, Repr

/-- The bytes of a piece. -/
def Piece.bytes (request? : Option Request) (trail : Trail) : Piece → List UInt8
  | .text s => Utf8.bytesOf s
  | .param name => ofRequest fun r => (r.params.get? name).getD ""
  | .query name => ofRequest fun r => (r.query.get? name).getD ""
  | .field name => ofRequest fun r => (r.fields.value? name).getD ""
  | .target => ofRequest (·.target)
  | .method => ofRequest (·.method.token)
  | .body => (request?.map (·.body)).getD []
  | .segments => ofRequest fun r => "|".intercalate r.segments
  | .params => ofRequest fun r => ";".intercalate (r.params.toList.map fun p => p.1 ++ "=" ++ p.2)
  | .trail => Utf8.bytesOf (",".intercalate trail)
where
  ofRequest (f : Request → String) : List UInt8 := Utf8.bytesOf ((request?.map f).getD "")

/-- A response to answer. Its parts are set in the order in which they are listed. -/
structure Answer where
  status : Status := .ok
  fields : List (String × String) := []
  body : Option (List Piece) := none
  json : Option Json.Value := none
  persistence : Option Bool := none
  version : Option Version := none

/-- The response of an answer. -/
def Answer.response (a : Answer) (request? : Option Request) (trail : Trail) : Response :=
  let r := a.fields.foldl (fun r f => r.setField f.1 f.2) (Response.ofStatus a.status)
  let r := match a.body with
    | some pieces => r.setBody (pieces.flatMap (Piece.bytes request? trail))
    | none => r
  let r := match a.json with
    | some v => r.setJson v
    | none => r
  let r := match a.persistence with
    | some b => { r with persistence := some b }
    | none => r
  match a.version with
  | some v => { r with version := v }
  | none => r

/-- An edit of a response in place. -/
inductive Edit where
  | set (name value : String)
  /-- Removes the field of exactly this name. -/
  | remove (name : String)
  /-- Adds to the body without touching the fields. -/
  | append (bytes : List UInt8)
  | status (s : Status)
  | persistence (choice : Option Bool)
  | version (v : Version)
  /-- Sets `X-Saw` to the value of a field. -/
  | saw (name : String)
  /-- Sets `X-Trail` to the trail. -/
  | trail
  deriving DecidableEq, Repr

/-- The response after an edit. -/
def Edit.apply (trail : Trail) (r : Response) : Edit → Response
  | .set name value => r.setField name value
  | .remove name => { r with fields := r.fields.erase name }
  | .append bytes => { r with body := r.body ++ bytes }
  | .status s => { r with status := s }
  | .persistence choice => { r with persistence := choice }
  | .version v => { r with version := v }
  | .saw name => r.setField "X-Saw" ((r.field? name).getD "-")
  | .trail => r.setField "X-Trail" (",".intercalate trail)

/-- A stage. -/
structure Stage where
  /-- Edits of the response, for a stage after the handler. -/
  edits : List Edit := []
  note : Option String := none
  fault : Option Fault := none
  /-- For a stage before the handler: the field with which a request passes. -/
  passesWith : Option String := none
  /-- For a handler: whether it answers with the JSON value of the request's body. -/
  echoJson : Bool := false
  answer : Option Answer := none

namespace Stage

/-- The trail with the note of a stage. -/
def noted (s : Stage) (trail : Trail) : Trail := trail ++ s.note.toList

/-- Leaves the note, fails if the stage is to fail, and goes on with `act` otherwise. -/
def run {α : Type} (s : Stage) (act : Trail → Except Fault α) : Staged Trail α := fun trail =>
  match s.fault with
  | some fault => (.error fault, s.noted trail)
  | none => (act (s.noted trail), s.noted trail)

/-- The stage before the handler that a description denotes. -/
def asBefore (s : Stage) (request : Request) : Staged Trail (Option Response) :=
  s.run fun trail =>
    if (s.passesWith.map request.fields.has).getD false then .ok none
    else .ok (s.answer.map fun a => a.response (some request) trail)

/-- The handler that a description denotes. -/
def asHandler (s : Stage) (request : Request) : Staged Trail Response :=
  s.run fun trail =>
    if s.echoJson then
      match request.jsonBody with
      | .ok v => .ok ((Response.ofStatus .ok).setJson v)
      | .error cause => .error (.failed (.request cause))
    else
      match s.answer with
      | some a => .ok (a.response (some request) trail)
      | none => .ok (Response.ofStatus .ok)

/-- The stage after the handler that a description denotes. -/
def asAfter (s : Stage) (response : Response) : Staged Trail Outcome := fun trail =>
  let response := s.edits.foldl (Edit.apply trail) response
  s.run (fun trail =>
    match s.answer with
    | some a => .ok (.replaced (a.response none trail))
    | none => .ok (.edited response)) trail

end Stage

/-- The flow of stages. -/
def flow (before : List Stage) (handler : Stage) (after : List Stage) : Flow Trail :=
  { before := before.map Stage.asBefore
    handler := handler.asHandler
    after := after.map Stage.asAfter }

end HttpEngine.Recipe
