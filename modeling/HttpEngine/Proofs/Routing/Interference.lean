import HttpEngine.Proofs.Routing.Registration
import HttpEngine.Proofs.Routing.Resolution
/-!
# Changes of a table and the routes they leave alone

Adding a route takes away the one with its path and method, wherever in the table that stands, and
puts the new one behind all others. So routes that overlap change their order, and a request may
come to another route than before. But what the change takes away or puts last is one route, and of
the others the first to fit is still the first (`RouteTable.isFirst_remove`,
`RouteTable.isFirst_add`): a request that another route is found for does not see the change.

A request that the changed route was not found for is affected in few ways
(`RouteTable.resolve_add_cases`, `RouteTable.resolve_remove_cases`), and only if the path that is
changed matches it. `RouteTable.resolve_change` says both for adding and for removing. None of it
takes a table whose paths and methods are distinct.
-/

namespace HttpEngine.RouteTable

variable {γ : Type} {t : RouteTable γ} {route other : Route γ} {before after : List (Route γ)}
  {path : String} {method asked : Method} {segments : List String} {params : TextMap}

/-! ### The first route to fit -/

/-- The first route to fit is in front, or nothing in front fits and it is the first behind. -/
theorem isFirst_append_iff :
    IsFirst (before ++ after) segments asked route ↔
      IsFirst before segments asked route ∨
        (∀ r ∈ before, ¬ r.Fits segments asked) ∧ IsFirst after segments asked route := by
  induction before with
  | nil => simp [not_isFirst_nil]
  | cons r before ih =>
    by_cases hr : r.Fits segments asked
    · rw [List.cons_append, isFirst_cons_of_fits hr, isFirst_cons_of_fits hr]
      exact (or_iff_left fun h => h.1 r List.mem_cons_self hr).symm
    · rw [List.cons_append, isFirst_cons_of_not_fits hr, isFirst_cons_of_not_fits hr, ih,
        List.forall_mem_cons, and_iff_right hr]

theorem isFirst_singleton_iff :
    IsFirst [other] segments asked route ↔ route = other ∧ other.Fits segments asked := by
  by_cases hother : other.Fits segments asked
  · rw [isFirst_cons_of_fits hother, and_iff_left hother]
  · rw [isFirst_cons_of_not_fits hother]
    exact iff_of_false not_isFirst_nil fun h => hother h.2

theorem resolve_eq_found_iff :
    t.resolve segments asked = .found route params ↔
      IsFirst t.routes segments asked route ∧ Template.Binds route.path segments params :=
  resolveFrom_eq_found_iff

theorem resolve_eq_methodNotAllowed_iff :
    t.resolve segments asked = .methodNotAllowed ↔
      (∀ r ∈ t.routes, ¬ r.Fits segments asked) ∧
        ∃ r ∈ t.routes, Template.Matches r.path segments :=
  resolveFrom_eq_methodNotAllowed_iff.trans
    (and_congr_right' (or_iff_right Bool.false_ne_true))

theorem resolve_eq_notFound_iff :
    t.resolve segments asked = .notFound ↔ ∀ r ∈ t.routes, ¬ Template.Matches r.path segments :=
  resolveFrom_eq_notFound_iff.trans (and_iff_right rfl)

/-- The route of a request is the first to fit, and one that fits binds what it is found with. -/
theorem exists_resolve_eq_found_iff :
    (∃ params, t.resolve segments asked = .found route params) ↔
      IsFirst t.routes segments asked route := by
  constructor
  · rintro ⟨params, h⟩
    exact (resolve_eq_found_iff.1 h).1
  · intro h
    obtain ⟨-, -, -, hfits, -⟩ := id h
    obtain ⟨params, hbind⟩ := Option.ne_none_iff_exists'.1
      (mt Route.bind_eq_none_iff.1 (not_not_intro hfits.2))
    exact ⟨params, resolve_eq_found_iff.2 ⟨h, (Route.bind_eq_some_iff.1 hbind).2⟩⟩

/-- That the route which is found for a request is registered under a path and method. -/
def FoundUnder (t : RouteTable γ) (path : String) (method : Method) (segments : List String)
    (asked : Method) : Prop :=
  ∃ route params, t.resolve segments asked = .found route params ∧ route.key = (path, method)

theorem foundUnder_iff :
    t.FoundUnder path method segments asked ↔
      ∃ route, IsFirst t.routes segments asked route ∧ route.key = (path, method) := by
  simp only [FoundUnder, ← exists_resolve_eq_found_iff, exists_and_right]

/-! ### Removing a route -/

/-- Removing leaves a table as it is or takes one route of the path and method away. -/
theorem remove_cases (t : RouteTable γ) (path : String) (method : Method) :
    t.remove path method = t ∨
      ∃ before old after, t.routes = before ++ old :: after ∧ old.key = (path, method) ∧
        (t.remove path method).routes = before ++ after := by
  rcases List.exists_or_eq_self_of_eraseP (fun r : Route γ => r.hasKey path method) t.routes with
    hsame | ⟨old, before, after, -, hold, hroutes, herase⟩
  · exact .inl (by rw [remove, hsame])
  · exact .inr ⟨before, old, after, hroutes, Route.hasKey_iff.1 hold, herase⟩

/-- What is true of all routes is true of those that removing leaves. -/
theorem forall_mem_remove {p : Route γ → Prop} (h : ∀ r ∈ t.routes, p r) :
    ∀ r ∈ (t.remove path method).routes, p r :=
  fun r hr => h r (List.mem_of_mem_eraseP hr)

theorem mem_remove_of_key_ne (h : route ∈ t.routes) (hkey : route.key ≠ (path, method)) :
    route ∈ (t.remove path method).routes := by
  have hother : ¬ route.hasKey path method = true := mt Route.hasKey_iff.1 hkey
  simpa [remove, List.mem_eraseP_of_neg, hother] using h

/-- A route that is the first to fit remains it when another is removed. -/
theorem isFirst_remove (h : IsFirst t.routes segments asked route)
    (hkey : route.key ≠ (path, method)) :
    IsFirst (t.remove path method).routes segments asked route := by
  rcases t.remove_cases path method with hsame | ⟨before, old, after, hroutes, hold, hremoved⟩
  · rwa [hsame]
  rw [hroutes, isFirst_append_iff] at h
  rw [hremoved, isFirst_append_iff]
  refine h.imp_right (And.imp_right fun hrest => ?_)
  -- the route that is removed is not the first, so it does not fit
  by_cases hfits : old.Fits segments asked
  · obtain rfl := (isFirst_cons_of_fits hfits).1 hrest
    exact absurd hold hkey
  · exact (isFirst_cons_of_not_fits hfits).1 hrest

/-- A route that is the first to fit once another is removed was the first before, or the one that
is removed was. -/
theorem isFirst_of_remove (h : IsFirst (t.remove path method).routes segments asked route) :
    IsFirst t.routes segments asked route ∨ t.FoundUnder path method segments asked := by
  rcases t.remove_cases path method with hsame | ⟨before, old, after, hroutes, hold, hremoved⟩
  · exact .inl (by rwa [hsame] at h)
  rw [foundUnder_iff, hroutes]
  rw [hremoved, isFirst_append_iff] at h
  simp only [isFirst_append_iff]
  rcases h with h | ⟨hbefore, h⟩
  · exact .inl (.inl h)
  · by_cases hfits : old.Fits segments asked
    · exact .inr ⟨old, .inr ⟨hbefore, (isFirst_cons_of_fits hfits).2 rfl⟩, hold⟩
    · exact .inl (.inr ⟨hbefore, (isFirst_cons_of_not_fits hfits).2 h⟩)

/-- What removing a route does to a request that it was not found for: nothing, unless the request
was refused for its method and no path but the one that is removed matches. -/
theorem resolve_remove_cases (h : ¬ t.FoundUnder path method segments asked) :
    (t.remove path method).resolve segments asked = t.resolve segments asked ∨
      Template.Matches path segments ∧ t.resolve segments asked = .methodNotAllowed ∧
        (t.remove path method).resolve segments asked = .notFound := by
  cases hresolve : t.resolve segments asked with
  | found route params =>
    obtain ⟨hfirst, hbinds⟩ := resolve_eq_found_iff.1 hresolve
    have hkey : route.key ≠ (path, method) := fun hkey => h ⟨route, params, hresolve, hkey⟩
    exact .inl (resolve_eq_found_iff.2 ⟨isFirst_remove hfirst hkey, hbinds⟩)
  | methodNotAllowed =>
    obtain ⟨hfits, r, hr, hmatches⟩ := resolve_eq_methodNotAllowed_iff.1 hresolve
    by_cases hleft : ∃ r ∈ (t.remove path method).routes, Template.Matches r.path segments
    · exact .inl (resolve_eq_methodNotAllowed_iff.2 ⟨forall_mem_remove hfits, hleft⟩)
    · have hkey : r.key = (path, method) := by
        by_contra hkey
        exact hleft ⟨r, mem_remove_of_key_ne hr hkey, hmatches⟩
      refine .inr ⟨?_, rfl, resolve_eq_notFound_iff.2 fun r hr hmatches => hleft ⟨r, hr, hmatches⟩⟩
      rwa [← show r.path = path from congrArg Prod.fst hkey]
  | notFound =>
    have hmatches := resolve_eq_notFound_iff.1 hresolve
    exact .inl (resolve_eq_notFound_iff.2 (forall_mem_remove hmatches))

/-! ### Adding a route -/

theorem routes_add (t : RouteTable γ) (route : Route γ) :
    (t.add route).routes = (t.remove route.path route.method).routes ++ [route] := rfl

/-- A route that is the first to fit remains it when another is added. -/
theorem isFirst_add (h : IsFirst t.routes segments asked other) (hkey : other.key ≠ route.key) :
    IsFirst (t.add route).routes segments asked other := by
  rw [routes_add, isFirst_append_iff]
  exact .inl (isFirst_remove h hkey)

/-- Where nothing else fits, a route that is added and fits is found. -/
theorem exists_resolve_add_of_fits (h : ∀ r ∈ t.routes, ¬ r.Fits segments asked)
    (hfits : route.Fits segments asked) :
    ∃ params, (t.add route).resolve segments asked = .found route params := by
  rw [exists_resolve_eq_found_iff, routes_add, isFirst_append_iff]
  exact .inr ⟨forall_mem_remove h, isFirst_singleton_iff.2 ⟨rfl, hfits⟩⟩

theorem forall_mem_add_not_fits (h : ∀ r ∈ t.routes, ¬ r.Fits segments asked)
    (hfits : ¬ route.Fits segments asked) :
    ∀ r ∈ (t.add route).routes, ¬ r.Fits segments asked := by
  rw [routes_add, List.forall_mem_append, List.forall_mem_singleton]
  exact ⟨forall_mem_remove h, hfits⟩

/-- A path that matches is not lost when a route is added: if the route that had it is taken away,
the new one has it. -/
theorem exists_matches_add (h : ∃ r ∈ t.routes, Template.Matches r.path segments) :
    ∃ r ∈ (t.add route).routes, Template.Matches r.path segments := by
  obtain ⟨r, hr, hmatches⟩ := h
  rw [routes_add]
  by_cases hkey : r.key = route.key
  · refine ⟨route, List.mem_append_right _ (List.mem_singleton_self route), ?_⟩
    rwa [← show r.path = route.path from congrArg Prod.fst hkey]
  · exact ⟨r, List.mem_append_left _ (mem_remove_of_key_ne hr hkey), hmatches⟩

/-- What adding a route does to a request that the route of its path and method was not found for:
nothing, unless the path matches. Then the new route may be found where none was, or the method be
refused where no path matched. -/
theorem resolve_add_cases (route : Route γ)
    (h : ¬ t.FoundUnder route.path route.method segments asked) :
    (t.add route).resolve segments asked = t.resolve segments asked ∨
      Template.Matches route.path segments ∧
        ((∃ params, (t.add route).resolve segments asked = .found route params) ∨
          t.resolve segments asked = .notFound ∧
            (t.add route).resolve segments asked = .methodNotAllowed) := by
  cases hresolve : t.resolve segments asked with
  | found other params =>
    obtain ⟨hfirst, hbinds⟩ := resolve_eq_found_iff.1 hresolve
    have hkey : other.key ≠ route.key := fun hkey => h ⟨other, params, hresolve, hkey⟩
    exact .inl (resolve_eq_found_iff.2 ⟨isFirst_add hfirst hkey, hbinds⟩)
  | methodNotAllowed =>
    obtain ⟨hfits, hmatches⟩ := resolve_eq_methodNotAllowed_iff.1 hresolve
    by_cases hroute : route.Fits segments asked
    · exact .inr ⟨hroute.2, .inl (exists_resolve_add_of_fits hfits hroute)⟩
    · exact .inl (resolve_eq_methodNotAllowed_iff.2
        ⟨forall_mem_add_not_fits hfits hroute, exists_matches_add hmatches⟩)
  | notFound =>
    have hmatches := resolve_eq_notFound_iff.1 hresolve
    have hfits : ∀ r ∈ t.routes, ¬ r.Fits segments asked := fun r hr h => hmatches r hr h.2
    by_cases hroute : Template.Matches route.path segments
    · refine .inr ⟨hroute, ?_⟩
      by_cases hmethod : route.method = asked
      · exact .inl (exists_resolve_add_of_fits hfits ⟨hmethod, hroute⟩)
      · refine .inr ⟨rfl, resolve_eq_methodNotAllowed_iff.2 ⟨?_, route, ?_, hroute⟩⟩
        · exact forall_mem_add_not_fits hfits fun h => hmethod h.1
        · exact List.mem_append_right _ (List.mem_singleton_self route)
    · refine .inl (resolve_eq_notFound_iff.2 ?_)
      rw [routes_add, List.forall_mem_append, List.forall_mem_singleton]
      exact ⟨forall_mem_remove hmatches, hroute⟩

/-! ### Both changes -/

/-- **Changes leave other routes alone.** Let a route be added to a table, or removed from it by its
path and method. A request that another route was found for is resolved to this route as before,
with the same parameters.

Where the route of that path and method was not found, adding it changes nothing, or else its path
matches the request, and it is now found or the method is now refused where no path matched. When it
is removed, a request that another route is found for had this route before, unless the removed one
had been found for it; and what was not found is not found. -/
theorem resolve_change (t : RouteTable γ) (path : String) (method : Method) (flow : Flow γ)
    (segments : List String) (asked : Method) :
    let route : Route γ := { path, method, flow }
    let added := (t.add route).resolve segments asked
    let removed := (t.remove path method).resolve segments asked
    (∀ other params, t.resolve segments asked = .found other params →
        other.key ≠ (path, method) →
        added = .found other params ∧ removed = .found other params) ∧
      (¬ t.FoundUnder path method segments asked →
        added = t.resolve segments asked ∨
          Template.Matches path segments ∧
            ((∃ params, added = .found route params) ∨
              t.resolve segments asked = .notFound ∧ added = .methodNotAllowed)) ∧
      (∀ other params, removed = .found other params →
        t.resolve segments asked = .found other params ∨
          t.FoundUnder path method segments asked) ∧
      (t.resolve segments asked = .notFound → removed = .notFound) := by
  intro route added removed
  refine ⟨fun other params hfound hkey => ?_, resolve_add_cases route,
    fun other params hfound => ?_, fun hnotFound => ?_⟩
  · obtain ⟨hfirst, hbinds⟩ := resolve_eq_found_iff.1 hfound
    exact ⟨resolve_eq_found_iff.2 ⟨isFirst_add hfirst hkey, hbinds⟩,
      resolve_eq_found_iff.2 ⟨isFirst_remove hfirst hkey, hbinds⟩⟩
  · obtain ⟨hfirst, hbinds⟩ := resolve_eq_found_iff.1 hfound
    exact (isFirst_of_remove hfirst).imp_left fun h => resolve_eq_found_iff.2 ⟨h, hbinds⟩
  · have hunder : ¬ t.FoundUnder path method segments asked := by
      rintro ⟨other, params, hfound, -⟩
      rw [hnotFound] at hfound
      cases hfound
    rcases resolve_remove_cases hunder with hsame | ⟨-, hrefused, -⟩
    · exact hsame.trans hnotFound
    · rw [hnotFound] at hrefused
      cases hrefused

/-- A route that answers every request with nothing. -/
def silentRoute (path : String) : Route Unit :=
  ⟨path, .get, { handler := fun _ n => (.ok (Response.ofStatus .noContent), n) }⟩

/-- A table of two routes that overlap. -/
def overlapping : RouteTable Unit := { routes := [silentRoute "/a/:id", silentRoute "/a/:name"] }

/-- The first of two routes that overlap is found whatever happens to the second. When the first is
removed, the second is found for a request that the first was found for. -/
theorem resolve_change_overlapping :
    (overlapping.resolve ["a", "1"] .get =
          .found (silentRoute "/a/:id") (.ofList [("id", "1")]) ∧
        (silentRoute "/a/:id").key ≠ ("/a/:name", .get) ∧
        (overlapping.add (silentRoute "/a/:name")).resolve ["a", "1"] .get =
          .found (silentRoute "/a/:id") (.ofList [("id", "1")]) ∧
        (overlapping.remove "/a/:name" .get).resolve ["a", "1"] .get =
          .found (silentRoute "/a/:id") (.ofList [("id", "1")])) ∧
      (overlapping.remove "/a/:id" .get).resolve ["a", "1"] .get =
          .found (silentRoute "/a/:name") (.ofList [("name", "1")]) ∧
        overlapping.FoundUnder "/a/:id" .get ["a", "1"] .get := by
  have hfirst : overlapping.resolve ["a", "1"] .get =
      .found (silentRoute "/a/:id") (.ofList [("id", "1")]) := rfl
  have hkey : (silentRoute "/a/:id").key ≠ ("/a/:name", .get) := by decide
  have hsecond : (overlapping.remove "/a/:id" .get).resolve ["a", "1"] .get =
      .found (silentRoute "/a/:name") (.ofList [("name", "1")]) := rfl
  have hchange := fun path =>
    resolve_change overlapping path .get (silentRoute path).flow ["a", "1"] .get
  refine ⟨⟨hfirst, hkey, (hchange "/a/:name").1 _ _ hfirst hkey⟩, hsecond, ?_⟩
  -- the second route was not found before, since the first was
  refine ((hchange "/a/:id").2.2.1 _ _ hsecond).resolve_left fun hbefore => ?_
  have hsame := congrArg Route.path (Resolution.found.inj (hfirst.symm.trans hbefore)).1
  exact absurd hsame (by decide)

end HttpEngine.RouteTable
