import HttpEngine.Proofs.Routing.Matching
/-!
# What a request resolves to

A route **fits** a request if it has its method and its path matches its segments. A request is
resolved to the earliest route that fits (`RouteTable.IsFirst`) and to what the path of that route
binds; if none fits, it is a matter of whether any path matches
(`RouteTable.resolve_eq_earliest_fitting`).

The scan goes through the routes once. What it remembers of those behind it is whether one of them
matched, and no more is needed: one that fitted would have ended the scan.
-/

namespace HttpEngine

variable {γ : Type}

/-- That a route has a method and its path matches segments. -/
def Route.Fits (route : Route γ) (segments : List String) (method : Method) : Prop :=
  route.method = method ∧ Template.Matches route.path segments

theorem Route.bind_eq_some_iff {route : Route γ} {segments : List String} {params : TextMap} :
    route.bind segments = some params ↔
      Template.Matches route.path segments ∧ Template.Binds route.path segments params :=
  Template.bind_ofPath_eq_some_iff

theorem Route.bind_eq_none_iff {route : Route γ} {segments : List String} :
    route.bind segments = none ↔ ¬ Template.Matches route.path segments := by
  rw [← Option.not_isSome_iff_eq_none]
  exact not_congr Template.bind_ofParts_isSome_iff

namespace RouteTable

variable {segments : List String} {method : Method} {matched : Bool} {routes : List (Route γ)}
  {route : Route γ} {params : TextMap}

/-- That a route is the first of some routes to fit. -/
def IsFirst (routes : List (Route γ)) (segments : List String) (method : Method)
    (route : Route γ) : Prop :=
  ∃ before after, routes = before ++ route :: after ∧ route.Fits segments method ∧
    ∀ r ∈ before, ¬ r.Fits segments method

theorem not_isFirst_nil : ¬ IsFirst [] segments method route := by
  rintro ⟨before, after, h, -, -⟩
  simp at h

/-- A route that fits is the first if it is in front. -/
theorem isFirst_cons_of_fits {r : Route γ} (h : r.Fits segments method) :
    IsFirst (r :: routes) segments method route ↔ route = r := by
  constructor
  · rintro ⟨before, after, heq, -, hbefore⟩
    cases before with
    | nil => exact (List.cons.inj heq).1.symm
    | cons s before =>
      obtain rfl := (List.cons.inj heq).1
      exact absurd h (hbefore r List.mem_cons_self)
  · rintro rfl
    exact ⟨[], routes, rfl, h, by simp⟩

/-- A route that does not fit is passed over. -/
theorem isFirst_cons_of_not_fits {r : Route γ} (h : ¬ r.Fits segments method) :
    IsFirst (r :: routes) segments method route ↔ IsFirst routes segments method route := by
  constructor
  · rintro ⟨before, after, heq, hroute, hbefore⟩
    cases before with
    | nil =>
      obtain rfl := (List.cons.inj heq).1
      exact absurd hroute h
    | cons s before =>
      exact ⟨before, after, (List.cons.inj heq).2, hroute, (List.forall_mem_cons.1 hbefore).2⟩
  · rintro ⟨before, after, rfl, hroute, hbefore⟩
    exact ⟨r :: before, after, rfl, hroute, List.forall_mem_cons.2 ⟨h, hbefore⟩⟩

/-! ### The scan -/

theorem resolveFrom_eq_found_iff :
    resolveFrom segments method matched routes = .found route params ↔
      IsFirst routes segments method route ∧ Template.Binds route.path segments params := by
  fun_induction resolveFrom segments method matched routes with
  | case1 | case2 => exact iff_of_false (by simp) fun h => not_isFirst_nil h.1
  | case3 matched r rest hbind ih =>
    have hfits : ¬ r.Fits segments method := fun h => Route.bind_eq_none_iff.1 hbind h.2
    rw [ih, isFirst_cons_of_not_fits hfits]
  | case4 matched r rest bound hbind hmethod =>
    obtain ⟨hmatches, hbinds⟩ := Route.bind_eq_some_iff.1 hbind
    rw [isFirst_cons_of_fits ⟨hmethod, hmatches⟩, Resolution.found.injEq]
    constructor
    · rintro ⟨rfl, rfl⟩
      exact ⟨rfl, hbinds⟩
    · rintro ⟨rfl, hparams⟩
      exact ⟨rfl, hbinds.unique hparams⟩
  | case5 matched r rest bound hbind hmethod ih =>
    rw [ih, isFirst_cons_of_not_fits fun h => hmethod h.1]

theorem resolveFrom_eq_methodNotAllowed_iff :
    resolveFrom segments method matched routes = .methodNotAllowed ↔
      (∀ r ∈ routes, ¬ r.Fits segments method) ∧
        (matched = true ∨ ∃ r ∈ routes, Template.Matches r.path segments) := by
  fun_induction resolveFrom segments method matched routes with
  | case1 => simp
  | case2 matched h => simp [h]
  | case3 matched r rest hbind ih =>
    have hmatches := Route.bind_eq_none_iff.1 hbind
    have hfits : ¬ r.Fits segments method := fun h => hmatches h.2
    simp only [ih, List.forall_mem_cons, List.exists_mem_cons_iff, hfits, hmatches,
      not_false_eq_true, true_and, false_or]
  | case4 matched r rest bound hbind hmethod =>
    have hfits : r.Fits segments method := ⟨hmethod, (Route.bind_eq_some_iff.1 hbind).1⟩
    exact iff_of_false (by simp) fun h => h.1 r List.mem_cons_self hfits
  | case5 matched r rest bound hbind hmethod ih =>
    have hmatches := (Route.bind_eq_some_iff.1 hbind).1
    have hfits : ¬ r.Fits segments method := fun h => hmethod h.1
    simp only [ih, List.forall_mem_cons, List.exists_mem_cons_iff, hfits, hmatches,
      not_false_eq_true, true_and, true_or, or_true, and_true]

theorem resolveFrom_eq_notFound_iff :
    resolveFrom segments method matched routes = .notFound ↔
      matched = false ∧ ∀ r ∈ routes, ¬ Template.Matches r.path segments := by
  fun_induction resolveFrom segments method matched routes with
  | case1 => simp
  | case2 matched h => simpa using h
  | case3 matched r rest hbind ih =>
    simp only [ih, List.forall_mem_cons, Route.bind_eq_none_iff.1 hbind, not_false_eq_true,
      true_and]
  | case4 matched r rest bound hbind hmethod =>
    have hmatches := (Route.bind_eq_some_iff.1 hbind).1
    exact iff_of_false (by simp) fun h => h.2 r List.mem_cons_self hmatches
  | case5 matched r rest bound hbind hmethod ih =>
    have hmatches := (Route.bind_eq_some_iff.1 hbind).1
    rw [ih]
    exact iff_of_false (by simp) fun h => h.2 r List.mem_cons_self hmatches

/-- **Resolution.** Of every table, however it was made, a request is resolved to the earliest route
that fits, with what its path binds; its method is refused just if no route fits and some path
matches; and it is not found just if no path matches. Resolving looks up no position of a template
or of the request that does not exist. -/
theorem resolve_eq_earliest_fitting (t : RouteTable γ) (segments : List String) (method : Method) :
    (∀ route params, t.resolve segments method = .found route params ↔
        IsFirst t.routes segments method route ∧ Template.Binds route.path segments params) ∧
      (t.resolve segments method = .methodNotAllowed ↔
        (∀ route ∈ t.routes, ¬ route.Fits segments method) ∧
          ∃ route ∈ t.routes, Template.Matches route.path segments) ∧
      (t.resolve segments method = .notFound ↔
        ∀ route ∈ t.routes, ¬ Template.Matches route.path segments) ∧
      ∀ path, (Template.ofPath path).bind? segments ≠ none := by
  refine ⟨fun route params => resolveFrom_eq_found_iff, ?_, ?_, fun path => ?_⟩
  · rw [resolve, resolveFrom_eq_methodNotAllowed_iff]
    simp
  · rw [resolve, resolveFrom_eq_notFound_iff]
    simp
  · rw [Template.bind?_eq]
    exact Option.some_ne_none _

end RouteTable

end HttpEngine
