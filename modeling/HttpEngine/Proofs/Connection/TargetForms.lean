import HttpEngine.Connection.Service
import HttpEngine.Proofs.Target.AbsoluteForm
/-!
# Both forms of a target

A client may ask for a target in origin form, or put a scheme and an authority in front of it. Both
are parsed to the same path, segments and parameters, or both are refused. A service looks at a
target only once it is parsed, so it finds the same for both: the flow of the same route with the
same parameters, or none, and then it answers the same (`Service.respond_cases`). No route is open
in one form and guarded in the other (`Service.bothForms_alike`).
-/

namespace HttpEngine

open Text

variable {γ : Type}

/-- The same request for another target. -/
def Request.asking (request : Request) (target : String) : Request :=
  { request with target := target }

namespace Service

/-- What a service makes of the targets that are parsed alike: either it answers each in the same
way without a flow, or it runs the flow of one route for each, with the same parameters. -/
theorem respond_cases (s : Service γ) (request : Request)
    (parsed : Except TargetError Target) :
    (∃ status, ∀ target, Target.parse target = parsed →
        (s.respond (request.asking target)).1 = Response.bare status s.config request) ∨
      ∃ t route params, parsed = .ok t ∧
        s.table.resolve t.segments request.method = .found route params ∧
        ∀ target, Target.parse target = parsed →
          s.respond (request.asking target) = s.runFlow route.flow
            { (request.asking target).withTarget t with params := params } := by
  cases parsed with
  | error cause =>
    refine .inl ⟨.notFound, fun target htarget => ?_⟩
    rw [respond, Request.readTarget, Request.asking, htarget]
    rfl
  | ok t =>
    have hread : ∀ target, Target.parse target = .ok t →
        (request.asking target).readTarget = .ok ((request.asking target).withTarget t) := by
      intro target htarget
      rw [Request.readTarget, Request.asking, htarget]
    -- what the table is asked is the same for every target that is parsed to `t`
    have hasked : ∀ target, s.table.resolve ((request.asking target).withTarget t).segments
        ((request.asking target).withTarget t).method =
          s.table.resolve t.segments request.method := fun _ => rfl
    cases hresolve : s.table.resolve t.segments request.method with
    | found route params =>
      refine .inr ⟨t, route, params, rfl, hresolve, fun target htarget => ?_⟩
      simp only [respond, hread target htarget, hasked target, hresolve]
    | notFound =>
      refine .inl ⟨.notFound, fun target htarget => ?_⟩
      simp only [respond, hread target htarget, hasked target, hresolve]
      rfl
    | methodNotAllowed =>
      refine .inl ⟨.methodNotAllowed, fun target htarget => ?_⟩
      simp only [respond, hread target htarget, hasked target, hresolve]
      rfl

/-- **Both forms are alike.** Let a target in origin form be put behind a scheme, `http` or `https`
in any case, and behind any authority: a text that is a reference behind the scheme alone, and none
of whose characters ends it. It is parsed to the same path, segments, query and parameters as by
itself, or refused as it is by itself. And every service treats a request for either in one way: it
answers both with the same bare status, or it finds the same route for both, and runs the flow on
requests that have the same segments and parameters. -/
theorem bothForms_alike {scheme authority target : String}
    (hscheme : sameFolded scheme "http" = true ∨ sameFolded scheme "https" = true)
    (hends : ∀ c ∈ authority.toList, Reference.endsAuthority c = false)
    (haccepted : ∃ r, Reference.parse (scheme ++ "://" ++ authority) = .ok r)
    (htarget : ['/'] <+: target.toList)
    (hsize : (scheme ++ "://" ++ authority ++ target).utf8ByteSize ≤ Reference.maxBytes) :
    Target.parse (scheme ++ "://" ++ authority ++ target) = Target.parse target ∧
      ∀ (s : Service γ) (request : Request),
        (∃ status, ∀ form ∈ [scheme ++ "://" ++ authority ++ target, target],
          (s.respond (request.asking form)).1 = Response.bare status s.config request) ∨
        ∃ t route params, Target.parse target = .ok t ∧
          s.table.resolve t.segments request.method = .found route params ∧
          ∀ form ∈ [scheme ++ "://" ++ authority ++ target, target],
            s.respond (request.asking form) = s.runFlow route.flow
              { (request.asking form).withTarget t with params := params } := by
  have hparse : Target.parse (scheme ++ "://" ++ authority ++ target) = Target.parse target := by
    rw [Target.parse, Target.parse,
      Reference.parse_absolute hscheme hends haccepted htarget hsize]
  have hforms : ∀ form ∈ [scheme ++ "://" ++ authority ++ target, target],
      Target.parse form = Target.parse target :=
    List.forall_mem_cons.2 ⟨hparse, List.forall_mem_singleton.2 rfl⟩
  refine ⟨hparse, fun s request => ?_⟩
  rcases s.respond_cases request (Target.parse target) with
    ⟨status, hbare⟩ | ⟨t, route, params, ht, hresolve, hrun⟩
  · exact .inl ⟨status, fun form hform => hbare form (hforms form hform)⟩
  · exact .inr ⟨t, route, params, ht, hresolve, fun form hform => hrun form (hforms form hform)⟩

/-- An authority with a user name that holds an escape, an address in brackets and a port, in front
of a target that opens with two slashes and holds everything that could end an authority. -/
theorem bothForms_bracketed :
    let authority := "us:er%40@[::1]:80"
    let target := "//a:b@c/%2F?x=[1]#/d"
    sameFolded "HtTpS" "https" = true ∧
      (∀ c ∈ authority.toList, Reference.endsAuthority c = false) ∧
      Reference.parse ("HtTpS" ++ "://" ++ authority) = .ok ⟨['/'], none⟩ ∧
      Target.parse target =
        .ok ⟨"//a:b@c/%2F", ["", "a:b@c", "/"], some "x=[1]", .ofList [("x", "[1]")]⟩ ∧
      Target.parse ("HtTpS" ++ "://" ++ authority ++ target) = Target.parse target := by
  intro authority target
  have hscheme : sameFolded "HtTpS" "https" = true := by decide
  have hall : (authority.toList.all fun c => !Reference.endsAuthority c) = true := by decide
  have hends : ∀ c ∈ authority.toList, Reference.endsAuthority c = false := fun c hc => by
    simpa using List.all_eq_true.1 hall c hc
  have haccepted : Reference.parse ("HtTpS" ++ "://" ++ authority) = .ok ⟨['/'], none⟩ := by decide
  have hsize : ("HtTpS" ++ "://" ++ authority ++ target).utf8ByteSize ≤ Reference.maxBytes := by
    decide
  refine ⟨hscheme, hends, haccepted, by decide, ?_⟩
  exact (bothForms_alike (γ := Unit) (.inr hscheme) hends ⟨_, haccepted⟩ (by decide) hsize).1

end Service

end HttpEngine
