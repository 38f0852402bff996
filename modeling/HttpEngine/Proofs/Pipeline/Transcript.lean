import HttpEngine.Pipeline.Flow
import Mathlib.Data.List.Chain
/-!
# The transcript of a flow

Which stages has a flow run, and on what? A flow can be made to tell: its stages write down in the
context what they were called with, and then do what they do (`EditingFlow.recorded`). Nothing else
is changed by it, so the record is that of the flow itself.

The record is the **transcript** of the flow (`EditingFlow.Transcript`), a list of calls that says
all there is to say about running it. The calls are those of the first stages in order, each on the
context and the response that the call before it has left; each but the last lets the flow go on;
and the last decides the outcome. There is one transcript only, and a flow records it and comes to
the outcome that it says (`EditingFlow.runSeeded_eq_iff_transcript`).

Stages after the handler are taken here as they are written: they edit the response where it stands,
and may still answer another or fail. What they have edited is then lost. Every flow is one of such
stages (`EditingFlow.exists_toFlow_eq`).
-/

namespace HttpEngine

variable {γ : Type}

/-! ### Stages that edit where they stand -/

/-- A stage after the handler that edits its response where it stands: whether it answers another,
how it leaves the response, and the context afterwards. -/
abbrev EditingStage (γ : Type) := Response → γ → Except Fault (Option Response) × Response × γ

/-- What a flow goes by of such a stage: the response that it leaves only if it does not answer. -/
def EditingStage.outcome (stage : EditingStage γ) (response : Response) : Staged γ Outcome :=
  fun context =>
    match stage response context with
    | (.ok none, left, context) => (.ok (.edited left), context)
    | (.ok (some answer), _, context) => (.ok (.replaced answer), context)
    | (.error fault, _, context) => (.error fault, context)

/-- A stage that comes to the outcomes of another, and edits its response where it stands. -/
def EditingStage.ofOutcome (stage : Response → Staged γ Outcome) : EditingStage γ :=
  fun response context =>
    match stage response context with
    | (.ok (.edited left), context) => (.ok none, left, context)
    | (.ok (.replaced answer), context) => (.ok (some answer), response, context)
    | (.error fault, context) => (.error fault, response, context)

theorem EditingStage.outcome_comp_ofOutcome :
    (outcome ∘ ofOutcome : (Response → Staged γ Outcome) → Response → Staged γ Outcome) = id := by
  funext stage response context
  rcases hstage : stage response context with ⟨fault | (left | answer), context'⟩ <;>
    simp only [Function.comp_apply, outcome, ofOutcome, hstage, id_eq]

/-- A flow whose stages after the handler edit the response where it stands. -/
structure EditingFlow (γ : Type) where
  /-- The stages before the handler, in order. -/
  before : List (Request → Staged γ (Option Response)) := []
  handler : Request → Staged γ Response
  /-- The stages after the handler, in order. -/
  after : List (EditingStage γ) := []

/-- A stage of a flow. -/
inductive FlowStage (γ : Type) where
  | before (stage : Request → Staged γ (Option Response))
  | handler (stage : Request → Staged γ Response)
  | after (stage : EditingStage γ)

/-- A call of a stage, with the context in which it is called and the response that it sees. -/
inductive Call (γ : Type) where
  | before (stage : Request → Staged γ (Option Response)) (context : γ)
  | handler (stage : Request → Staged γ Response) (context : γ)
  | after (stage : EditingStage γ) (response : Response) (context : γ)

/-- What a call means for its flow. -/
inductive Turn where
  /-- The next stage is called, and sees the response if there is one. -/
  | goesOn (response : Option Response)
  /-- A response is answered in place of what the flow has. -/
  | answers (response : Response)
  | fails (fault : Fault)
  deriving DecidableEq

namespace Call

/-- The stage that is called. -/
def stage : Call γ → FlowStage γ
  | .before stage _ => .before stage
  | .handler stage _ => .handler stage
  | .after stage _ _ => .after stage

/-- The context in which it is called. -/
def context : Call γ → γ
  | .before _ context => context
  | .handler _ context => context
  | .after _ _ context => context

/-- The response that it sees, which is none up to the handler. -/
def seen : Call γ → Option Response
  | .before _ _ => none
  | .handler _ _ => none
  | .after _ response _ => some response

/-- The context that it leaves. -/
def left (request : Request) : Call γ → γ
  | .before stage context => (stage request context).2
  | .handler stage context => (stage request context).2
  | .after stage response context => (stage response context).2.2

/-- What it means for the flow. The response of the handler is seeded before any stage sees it; what
a stage behind it leaves is seen by the next as it is. -/
def turn (seed : Response → Response) (request : Request) : Call γ → Turn
  | .before stage context =>
    match (stage request context).1 with
    | .ok none => .goesOn none
    | .ok (some response) => .answers response
    | .error fault => .fails fault
  | .handler stage context =>
    match (stage request context).1 with
    | .ok response => .goesOn (some (seed response))
    | .error fault => .fails fault
  | .after stage response context =>
    match stage response context with
    | (.ok none, left, _) => .goesOn (some left)
    | (.ok (some answer), _, _) => .answers answer
    | (.error fault, _, _) => .fails fault

/-- A call is told by its stage, its context and the response that it sees. -/
theorem eq_of_stage_eq {c d : Call γ} (hstage : c.stage = d.stage)
    (hcontext : c.context = d.context) (hseen : c.seen = d.seen) : c = d := by
  cases c <;> cases d <;> simp_all [stage, context, seen]

end Call

/-- The outcome that the last turn of a flow decides. If the flow could still go on, all its stages
must have been called, and its outcome is the response that they leave. -/
def Turn.Decides (seed : Response → Response) (complete : Prop) (result : Except Fault Response) :
    Turn → Prop
  | .goesOn response => complete ∧ ∃ r, response = some r ∧ result = .ok r
  | .answers response => result = .ok (seed response)
  | .fails fault => result = .error fault

theorem Turn.Decides.unique {seed : Response → Response} {complete complete' : Prop}
    {result result' : Except Fault Response} {t : Turn} (h : t.Decides seed complete result)
    (h' : t.Decides seed complete' result') : result = result' := by
  cases t with
  | goesOn response =>
    obtain ⟨-, r, rfl, rfl⟩ := h
    obtain ⟨-, r', hr, rfl⟩ := h'
    rw [Option.some.inj hr]
  | answers response => exact h.trans h'.symm
  | fails fault => exact h.trans h'.symm

namespace EditingFlow

/-- What a flow of editing stages is run as. -/
def toFlow (f : EditingFlow γ) : Flow γ where
  before := f.before
  handler := f.handler
  after := f.after.map EditingStage.outcome

/-- The stages in order. -/
def stages (f : EditingFlow γ) : List (FlowStage γ) :=
  f.before.map .before ++ .handler f.handler :: f.after.map .after

/-- Every flow is run as one of editing stages: a stage edits its response by leaving the edited one
in its place. -/
theorem exists_toFlow_eq (flow : Flow γ) : ∃ f : EditingFlow γ, f.toFlow = flow := by
  refine ⟨⟨flow.before, flow.handler, flow.after.map EditingStage.ofOutcome⟩, ?_⟩
  simp only [toFlow, List.map_map, EditingStage.outcome_comp_ofOutcome, List.map_id]

/-! ### Recording -/

/-- A computation that writes down a call and then does what it does. -/
def recordedAs {α : Type} (call : γ → Call γ) (act : Staged γ α) :
    Staged (γ × List (Call γ)) α := fun (context, calls) =>
  ((act context).1, (act context).2, calls ++ [call context])

/-- A stage after the handler that writes down its call and then does what it does. -/
def recordedStage (stage : EditingStage γ) : EditingStage (γ × List (Call γ)) :=
  fun response (context, calls) =>
    ((stage response context).1, (stage response context).2.1, (stage response context).2.2,
      calls ++ [.after stage response context])

/-- The flow that keeps a record of its calls beside its context. -/
def recorded (f : EditingFlow γ) : EditingFlow (γ × List (Call γ)) where
  before := f.before.map fun stage request => recordedAs (.before stage) (stage request)
  handler := fun request => recordedAs (.handler f.handler) (f.handler request)
  after := f.after.map recordedStage

/-! ### Transcripts -/

section

variable (seed : Response → Response) (request : Request)

/-- The **transcript** of stages that are run on a context, the first of them on the response that
it sees. -/
structure TranscriptOf (stages : List (FlowStage γ)) (sees : Option Response) (context : γ)
    (calls : List (Call γ)) (result : Except Fault Response) (context' : γ) : Prop where
  /-- The first stages are called, in order and once each. -/
  inOrder : calls.map Call.stage <+: stages
  ne_nil : calls ≠ []
  starts : ∀ first ∈ calls.head?, first.context = context ∧ first.seen = sees
  /-- A stage is called on what the stage before it has left, which has let the flow go on. -/
  goesOn : calls.IsChain fun call next =>
    next.context = call.left request ∧ call.turn seed request = .goesOn next.seen
  /-- The last call decides the outcome. -/
  ends : ∀ last ∈ calls.getLast?, context' = last.left request ∧
    (last.turn seed request).Decides seed (calls.map Call.stage = stages) result

/-- The transcript of a flow. -/
abbrev Transcript (f : EditingFlow γ) (context : γ) (calls : List (Call γ))
    (result : Except Fault Response) (context' : γ) : Prop :=
  TranscriptOf seed request f.stages none context calls result context'

end

variable {seed : Response → Response} {request : Request} {stages rest : List (FlowStage γ)}
  {stage : FlowStage γ} {sees : Option Response} {context context' : γ} {call : Call γ}
  {calls more : List (Call γ)} {result : Except Fault Response}

/-- **One call.** A transcript is the call of the first stage, which either decides the outcome or
lets the flow go on to a transcript of the other stages. -/
theorem transcriptOf_cons_iff :
    TranscriptOf seed request (stage :: rest) sees context (call :: more) result context' ↔
      (call.stage = stage ∧ call.context = context ∧ call.seen = sees) ∧
        (more = [] ∧ context' = call.left request ∧
            (call.turn seed request).Decides seed (rest = []) result ∨
          ∃ response, call.turn seed request = .goesOn response ∧
            TranscriptOf seed request rest response (call.left request) more result context') := by
  constructor
  · rintro ⟨inOrder, -, starts, goesOn, ends⟩
    obtain ⟨hstage, inOrder⟩ := List.cons_prefix_cons.mp inOrder
    refine ⟨⟨hstage, starts call rfl⟩, ?_⟩
    cases more with
    | nil =>
      -- The one call is that of all the stages just if there are no others.
      obtain ⟨hleft, hdecides⟩ := ends call rfl
      refine .inl ⟨rfl, hleft, ?_⟩
      simpa [hstage, eq_comm] using hdecides
    | cons next more =>
      obtain ⟨⟨hcontext, hturn⟩, goesOn⟩ := List.isChain_cons_cons.mp goesOn
      refine .inr ⟨next.seen, hturn, inOrder, List.cons_ne_nil _ _, ?_, goesOn, ?_⟩
      · rintro first ⟨⟩
        exact ⟨hcontext, rfl⟩
      · simpa [hstage] using ends
  · rintro ⟨⟨hstage, hstarts⟩, ⟨rfl, hleft, hdecides⟩ |
      ⟨response, hturn, inOrder, hmore, starts, goesOn, ends⟩⟩
    · refine ⟨?_, List.cons_ne_nil _ _, ?_, .singleton _, ?_⟩
      · exact List.cons_prefix_cons.mpr ⟨hstage, List.nil_prefix⟩
      · rintro first ⟨⟩
        exact hstarts
      · rintro last ⟨⟩
        exact ⟨hleft, by simpa [hstage, eq_comm] using hdecides⟩
    · obtain ⟨next, more, rfl⟩ := List.exists_cons_of_ne_nil hmore
      obtain ⟨hcontext, rfl⟩ := starts next rfl
      refine ⟨List.cons_prefix_cons.mpr ⟨hstage, inOrder⟩, List.cons_ne_nil _ _, ?_,
        List.isChain_cons_cons.mpr ⟨⟨hcontext, hturn⟩, goesOn⟩, ?_⟩
      · rintro first ⟨⟩
        exact hstarts
      · simpa [hstage] using ends

/-- Without stages there is no transcript. -/
theorem not_transcriptOf_nil :
    ¬ TranscriptOf seed request [] sees context calls result context' := fun h =>
  h.ne_nil (List.map_eq_nil_iff.mp (List.prefix_nil.mp h.inOrder))

/-- A call that decides the outcome is followed by none. -/
theorem not_transcriptOf_of_decides {response : Option Response} {next : Except Fault Response}
    (hdecides : (call.turn seed request).Decides seed (rest = []) next)
    (hturn : call.turn seed request = .goesOn response) :
    ¬ TranscriptOf seed request rest response context calls result context' := by
  rw [hturn] at hdecides
  rw [hdecides.1]
  exact not_transcriptOf_nil

/-- **There is one transcript only.** -/
theorem TranscriptOf.unique {calls₂ : List (Call γ)} {result₂ : Except Fault Response}
    {context₂ : γ} (h : TranscriptOf seed request stages sees context calls result context')
    (h₂ : TranscriptOf seed request stages sees context calls₂ result₂ context₂) :
    calls = calls₂ ∧ result = result₂ ∧ context' = context₂ := by
  induction stages generalizing sees context calls calls₂ with
  | nil => exact absurd h not_transcriptOf_nil
  | cons stage rest ih =>
    obtain ⟨call, more, rfl⟩ := List.exists_cons_of_ne_nil h.ne_nil
    obtain ⟨call₂, more₂, rfl⟩ := List.exists_cons_of_ne_nil h₂.ne_nil
    obtain ⟨⟨hstage, hcontext, hseen⟩, hrest⟩ := transcriptOf_cons_iff.mp h
    obtain ⟨⟨hstage₂, hcontext₂, hseen₂⟩, hrest₂⟩ := transcriptOf_cons_iff.mp h₂
    obtain rfl : call = call₂ :=
      Call.eq_of_stage_eq (hstage.trans hstage₂.symm) (hcontext.trans hcontext₂.symm)
        (hseen.trans hseen₂.symm)
    -- Both are now about one call, so that either both end with it or both go on from it.
    rcases hrest with ⟨rfl, rfl, hdecides⟩ | ⟨response, hturn, hmore⟩ <;>
      rcases hrest₂ with ⟨rfl, rfl, hdecides₂⟩ | ⟨response₂, hturn₂, hmore₂⟩
    · exact ⟨rfl, hdecides.unique hdecides₂, rfl⟩
    · exact absurd hmore₂ (not_transcriptOf_of_decides hdecides hturn₂)
    · exact absurd hmore (not_transcriptOf_of_decides hdecides₂ hturn)
    · obtain rfl : response = response₂ := Turn.goesOn.inj (hturn.symm.trans hturn₂)
      obtain ⟨rfl, rfl, rfl⟩ := ih hmore hmore₂
      exact ⟨rfl, rfl, rfl⟩

/-! ### The record is the transcript -/

/-- A run with a record agrees with the plain run, and what it adds to the record is the transcript
of the stages that were run. -/
def Records (seed : Response → Response) (request : Request) (stages : List (FlowStage γ))
    (sees : Option Response) (context : γ) (log : List (Call γ))
    (plain : Except Fault Response × γ) (written : Except Fault Response × γ × List (Call γ)) :
    Prop :=
  ∃ calls, written = (plain.1, plain.2, log ++ calls) ∧
    TranscriptOf seed request stages sees context calls plain.1 plain.2

section

variable {log : List (Call γ)} {plain : Except Fault Response × γ}
  {written : Except Fault Response × γ × List (Call γ)} {response : Response}

/-- The last call is recorded. -/
theorem Records.last (call : Call γ) (hleft : call.left request = context')
    (hdecides : (call.turn seed request).Decides seed (rest = []) result) :
    Records seed request (call.stage :: rest) call.seen call.context log (result, context')
      (result, context', log ++ [call]) :=
  ⟨[call], rfl, transcriptOf_cons_iff.mpr ⟨⟨rfl, rfl, rfl⟩, .inl ⟨rfl, hleft.symm, hdecides⟩⟩⟩

/-- A call that lets the flow go on is recorded, and then the calls behind it are. -/
theorem Records.cons {seen : Option Response} (call : Call γ)
    (hleft : call.left request = context') (hturn : call.turn seed request = .goesOn seen)
    (h : Records seed request rest seen context' (log ++ [call]) plain written) :
    Records seed request (call.stage :: rest) call.seen call.context log plain written := by
  subst hleft
  obtain ⟨calls, rfl, htranscript⟩ := h
  refine ⟨call :: calls, by rw [List.append_assoc, List.singleton_append], ?_⟩
  exact transcriptOf_cons_iff.mpr ⟨⟨rfl, rfl, rfl⟩, .inr ⟨seen, hturn, htranscript⟩⟩

/-- **After the handler.** A call that lets the flow go on is recorded, and then the calls of the
stages after the handler are. -/
theorem records_runAfter (after : List (EditingStage γ)) (call : Call γ)
    (hleft : call.left request = context')
    (hturn : call.turn seed request = .goesOn (some response)) :
    Records seed request (call.stage :: after.map .after) call.seen call.context log
      (Flow.runAfter seed (after.map EditingStage.outcome) response context')
      (Flow.runAfter seed ((after.map recordedStage).map EditingStage.outcome) response
        (context', log ++ [call])) := by
  induction after generalizing call response context' log with
  | nil => exact .last call hleft (by rw [hturn]; exact ⟨rfl, response, rfl, rfl⟩)
  | cons stage after ih =>
    refine .cons call hleft hturn ?_
    -- The next call fails, edits the response or answers another; calls follow an edit only.
    let next : Call γ := .after stage response context'
    rcases hstage : stage response context' with ⟨fault | (- | answer), left, context₂⟩ <;>
      have hnext : next.left request = context₂ := by simp only [next, Call.left, hstage]
    all_goals simp only [List.map_cons, Flow.runAfter, EditingStage.outcome, recordedStage, hstage]
    · exact .last next hnext (by simp only [next, Call.turn, hstage, Turn.Decides])
    · exact ih next hnext (by simp only [next, Call.turn, hstage])
    · exact .last next hnext (by simp only [next, Call.turn, hstage, Turn.Decides])

/-- **The whole flow.** Its calls are recorded, and otherwise it does what it does. -/
theorem records_runSeeded (f : EditingFlow γ) (context : γ) (log : List (Call γ)) :
    Records seed request f.stages none context log (f.toFlow.runSeeded seed request context)
      (f.recorded.toFlow.runSeeded seed request (context, log)) := by
  obtain ⟨before, handler, after⟩ := f
  -- On the stages before the handler; the record grows with the context that they leave.
  induction before generalizing context log with
  | nil =>
    let first : Call γ := .handler handler context
    rcases hhandler : handler request context with ⟨fault | response, context₂⟩ <;>
      have hfirst : first.left request = context₂ := by simp only [first, Call.left, hhandler]
    all_goals simp only [Flow.runSeeded, Flow.runBefore, toFlow, recorded, recordedAs,
      List.map_nil, hhandler]
    · exact .last first hfirst (by simp only [first, Call.turn, hhandler, Turn.Decides])
    · exact records_runAfter after first hfirst (by simp only [first, Call.turn, hhandler])
  | cons stage before ih =>
    let first : Call γ := .before stage context
    rcases hstage : stage request context with ⟨fault | (- | answer), context₂⟩ <;>
      have hfirst : first.left request = context₂ := by simp only [first, Call.left, hstage]
    · simp only [Flow.runSeeded, Flow.runBefore, toFlow, recorded, recordedAs,
        List.map_cons, hstage]
      exact .last first hfirst (by simp only [first, Call.turn, hstage, Turn.Decides])
    · have hrest := ih context₂ (log ++ [first])
      simp only [Flow.runSeeded, Flow.runBefore, toFlow, recorded, recordedAs,
        List.map_cons, hstage] at hrest ⊢
      exact .cons first hfirst (by simp only [first, Call.turn, hstage]) hrest
    · simp only [Flow.runSeeded, Flow.runBefore, toFlow, recorded, recordedAs,
        List.map_cons, hstage]
      exact .last first hfirst (by simp only [first, Call.turn, hstage, Turn.Decides])

end

/-- **Running is following the transcript.** What a flow records, the outcome it comes to and the
context it leaves are what its transcript says, and keeping the record changes nothing else. -/
theorem runSeeded_eq_iff_transcript (f : EditingFlow γ) (seed : Response → Response)
    (request : Request) (context context' : γ) (result : Except Fault Response) :
    (∀ calls, f.recorded.toFlow.runSeeded seed request (context, []) = (result, context', calls) ↔
        Transcript seed request f context calls result context') ∧
      (f.toFlow.runSeeded seed request context = (result, context') ↔
        ∃ calls, Transcript seed request f context calls result context') := by
  obtain ⟨made, hrecorded, htranscript⟩ : Records seed request f.stages none context []
      (f.toFlow.runSeeded seed request context)
      (f.recorded.toFlow.runSeeded seed request (context, [])) := records_runSeeded f context []
  rw [List.nil_append] at hrecorded
  refine ⟨fun calls => ⟨fun h => ?_, fun h => ?_⟩, fun h => ⟨made, ?_⟩, ?_⟩
  · rw [hrecorded] at h
    cases h
    exact htranscript
  · obtain ⟨rfl, hresult, hcontext⟩ := h.unique htranscript
    rw [hrecorded, hresult, hcontext]
  · rw [h] at htranscript
    exact htranscript
  · rintro ⟨calls, h⟩
    obtain ⟨-, rfl, rfl⟩ := h.unique htranscript
    rfl

end EditingFlow

end HttpEngine
