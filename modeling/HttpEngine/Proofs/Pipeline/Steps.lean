import HttpEngine.Pipeline.Flow
import Mathlib.Logic.Relation
/-!
# The steps of a flow

A flow takes one **step** a stage. Between two stages it stands at a **point**: the stages that are
still to run, the context, and behind the handler the response. A stage that lets the flow go on is
a step to the next point (`Flow.Step`); any other way in which a stage can end, and having no stage
left, ends the flow (`Flow.Ends`).

Running a flow is taking its steps as far as they go (`Flow.runSeeded_eq_iff`): it comes to an
outcome just when some point that is reached from the start ends in it. So whatever is to be said
about every run of a flow can be said about single stages.
-/

namespace HttpEngine.Flow

open Relation

variable {γ : Type}

/-- Where a flow stands between two stages. -/
inductive Point (γ : Type) where
  /-- Stages before the handler are still to run, and the handler behind them. -/
  | before (rest : List (Request → Staged γ (Option Response))) (context : γ)
  /-- The handler has run, and stages after it are still to run on the response. -/
  | after (rest : List (Response → Staged γ Outcome)) (response : Response) (context : γ)

/-- Where a flow starts. -/
def start (flow : Flow γ) (context : γ) : Point γ := .before flow.before context

section Steps

variable (flow : Flow γ) (seed : Response → Response) (request : Request)

/-- A stage that lets the flow go on takes it to the next point. -/
inductive Step : Point γ → Point γ → Prop
  | pass {stage rest context context'} (h : stage request context = (.ok none, context')) :
    Step (.before (stage :: rest) context) (.before rest context')
  | handle {response context context'}
    (h : flow.handler request context = (.ok response, context')) :
    Step (.before [] context) (.after flow.after (seed response) context')
  | edit {stage rest response response' context context'}
    (h : stage response context = (.ok (.edited response'), context')) :
    Step (.after (stage :: rest) response context) (.after rest response' context')

/-- A stage that answers or fails ends the flow, and so does having no stage left. -/
inductive Ends : Point γ → Except Fault Response × γ → Prop
  | answered {stage rest response context context'}
    (h : stage request context = (.ok (some response), context')) :
    Ends (.before (stage :: rest) context) (.ok (seed response), context')
  | failedBefore {stage rest fault context context'}
    (h : stage request context = (.error fault, context')) :
    Ends (.before (stage :: rest) context) (.error fault, context')
  | failedHandler {fault context context'}
    (h : flow.handler request context = (.error fault, context')) :
    Ends (.before [] context) (.error fault, context')
  | replaced {stage rest response response' context context'}
    (h : stage response context = (.ok (.replaced response'), context')) :
    Ends (.after (stage :: rest) response context) (.ok (seed response'), context')
  | failedAfter {stage rest response fault context context'}
    (h : stage response context = (.error fault, context')) :
    Ends (.after (stage :: rest) response context) (.error fault, context')
  | done {response context} : Ends (.after [] response context) (.ok response, context)

/-- A flow **reaches** a point when steps lead there from the start. -/
def Reaches (context : γ) (p : Point γ) : Prop :=
  ReflTransGen (Step flow seed request) (flow.start context) p

/-- A flow **faults** when a stage that it comes to fails. -/
def Faults (context : γ) : Prop :=
  ∃ p fault context', flow.Reaches seed request context p ∧
    Ends flow seed request p (.error fault, context')

/-- What comes of running a flow from a point on. -/
def runFrom : Point γ → Except Fault Response × γ
  | .before rest context => runSeeded { flow with before := rest } seed request context
  | .after rest response context => runAfter seed rest response context

variable {flow seed request} {p q : Point γ} {out : Except Fault Response × γ}

theorem runFrom_of_step (h : Step flow seed request p q) :
    flow.runFrom seed request p = flow.runFrom seed request q := by
  cases h with
  | pass h => simp only [runFrom, runSeeded, runBefore, h]
  | handle h => simp only [runFrom, runSeeded, runBefore, h]
  | edit h => simp only [runFrom, runAfter, h]

theorem runFrom_of_ends (h : Ends flow seed request p out) :
    flow.runFrom seed request p = out := by
  cases h with
  | answered h => simp only [runFrom, runSeeded, runBefore, h]
  | failedBefore h => simp only [runFrom, runSeeded, runBefore, h]
  | failedHandler h => simp only [runFrom, runSeeded, runBefore, h]
  | replaced h => simp only [runFrom, runAfter, h]
  | failedAfter h => simp only [runFrom, runAfter, h]
  | done => rfl

/-- From every point behind the handler the steps lead to an end. -/
theorem exists_ends_after (rest : List (Response → Staged γ Outcome)) (response : Response)
    (context : γ) :
    ∃ q out, ReflTransGen (Step flow seed request) (.after rest response context) q ∧
      Ends flow seed request q out := by
  induction rest generalizing response context with
  | nil => exact ⟨_, _, .refl, .done⟩
  | cons stage rest ih =>
    rcases hstage : stage response context with ⟨fault | (response' | response'), context'⟩
    · exact ⟨_, _, .refl, .failedAfter hstage⟩
    · obtain ⟨q, out, hreach, hends⟩ := ih response' context'
      exact ⟨q, out, .head (.edit hstage) hreach, hends⟩
    · exact ⟨_, _, .refl, .replaced hstage⟩

/-- From every point the steps lead to an end. -/
theorem exists_ends (p : Point γ) :
    ∃ q out, ReflTransGen (Step flow seed request) p q ∧ Ends flow seed request q out := by
  cases p with
  | after rest response context => exact exists_ends_after rest response context
  | before rest context =>
    induction rest generalizing context with
    | nil =>
      rcases hhandler : flow.handler request context with ⟨fault | response, context'⟩
      · exact ⟨_, _, .refl, .failedHandler hhandler⟩
      · obtain ⟨q, out, hreach, hends⟩ := exists_ends_after flow.after (seed response) context'
        exact ⟨q, out, .head (.handle hhandler) hreach, hends⟩
    | cons stage rest ih =>
      rcases hstage : stage request context with ⟨fault | (- | response), context'⟩
      · exact ⟨_, _, .refl, .failedBefore hstage⟩
      · obtain ⟨q, out, hreach, hends⟩ := ih context'
        exact ⟨q, out, .head (.pass hstage) hreach, hends⟩
      · exact ⟨_, _, .refl, .answered hstage⟩

theorem runFrom_of_reaches (h : ReflTransGen (Step flow seed request) p q) :
    flow.runFrom seed request p = flow.runFrom seed request q := by
  induction h with
  | refl => rfl
  | tail _ hstep ih => exact ih.trans (runFrom_of_step hstep)

/-- A point behind the handler is only reached once the handler has answered. -/
theorem exists_handler_of_reaches {context context' : γ} {rest : List (Response → Staged γ Outcome)}
    {response : Response} (h : flow.Reaches seed request context (.after rest response context')) :
    ∃ made context₁ context₂, flow.Reaches seed request context (.before [] context₁) ∧
      flow.handler request context₁ = (.ok made, context₂) := by
  generalize hp : Point.after rest response context' = p at h
  induction h generalizing rest response context' with
  | refl => cases hp
  | tail hreach hstep ih =>
    subst hp
    cases hstep with
    | handle hhandler => exact ⟨_, _, _, hreach, hhandler⟩
    | edit => exact ih rfl

/-- **Running is taking steps.** A flow comes to an outcome when a point that it reaches ends in
it. -/
theorem runSeeded_eq_iff {context : γ} :
    flow.runSeeded seed request context = out ↔
      ∃ p, flow.Reaches seed request context p ∧ Ends flow seed request p out := by
  have hstart : flow.runSeeded seed request context =
      flow.runFrom seed request (flow.start context) := rfl
  rw [hstart]
  constructor
  · rintro rfl
    obtain ⟨q, out, hreach, hends⟩ :
        ∃ q out, flow.Reaches seed request context q ∧ Ends flow seed request q out :=
      exists_ends _
    rw [runFrom_of_reaches hreach, runFrom_of_ends hends]
    exact ⟨q, hreach, hends⟩
  · rintro ⟨p, hreach, hends⟩
    rw [runFrom_of_reaches hreach, runFrom_of_ends hends]

/-- A flow comes to a fault when it faults. -/
theorem faults_iff {context : γ} :
    flow.Faults seed request context ↔
      ∃ fault context', flow.runSeeded seed request context = (.error fault, context') := by
  simp only [runSeeded_eq_iff, Faults]
  constructor
  · rintro ⟨p, fault, context', h⟩
    exact ⟨fault, context', p, h⟩
  · rintro ⟨fault, context', p, h⟩
    exact ⟨p, fault, context', h⟩

end Steps

end HttpEngine.Flow
