import HttpEngine.Pipeline.Flow
import HttpEngine.Routing.Template
/-!
# The route table

A **route** binds a path template and a method to a flow. The table keeps routes in the order of
their registration and resolves a request to the first whose template and method both fit, so
overlapping templates resolve by registration and not by how specific they are. If only templates
fit, the method is at fault; if none does, there is nothing under that path.

Registering a path and method again replaces the route and places it last. A strict table can be
asked to refuse that instead.
-/

namespace HttpEngine

/-- A route. -/
structure Route (γ : Type) where
  path : String
  method : Method
  flow : Flow γ

namespace Route

variable {γ : Type}

/-- Whether a route is registered under a path and method. -/
def hasKey (route : Route γ) (path : String) (method : Method) : Bool :=
  route.path == path && route.method == method

/-- The route with the same path, method and flow. -/
def copy (route : Route γ) : Route γ :=
  { path := route.path, method := route.method, flow := route.flow }

/-- The parameters that a route binds when its template matches segments. -/
def bind (route : Route γ) (segments : List String) : Option TextMap :=
  (Template.ofPath route.path).bind segments

end Route

/-- What a request resolves to. -/
inductive Resolution (γ : Type) where
  | found (route : Route γ) (params : TextMap)
  /-- Templates match, but none of their routes has the method. -/
  | methodNotAllowed
  | notFound

/-- A table of routes in the order of registration. -/
structure RouteTable (γ : Type) where
  routes : List (Route γ) := []
  /-- Whether `tryAdd` refuses to replace a route. -/
  strict : Bool := false

namespace RouteTable

variable {γ : Type}

instance : Inhabited (RouteTable γ) := ⟨{}⟩

/-- Whether a route is registered under a path and method. -/
def hasKey (t : RouteTable γ) (path : String) (method : Method) : Bool :=
  t.routes.any fun route => route.hasKey path method

/-- Removes the first route registered under a path and method, if there is one. -/
def remove (t : RouteTable γ) (path : String) (method : Method) : RouteTable γ :=
  { t with routes := t.routes.eraseP fun route => route.hasKey path method }

/-- Registers a route after every other, in place of one with the same path and method. -/
def add (t : RouteTable γ) (route : Route γ) : RouteTable γ :=
  let t := t.remove route.path route.method
  { t with routes := t.routes ++ [route] }

/-- Registers a route unless the table is strict and would have to replace one. -/
def tryAdd (t : RouteTable γ) (route : Route γ) : Except ServiceError (RouteTable γ) :=
  if t.strict && t.hasKey route.path route.method then
    .error (.routeTaken route.method route.path)
  else .ok (t.add route)

/-- The table with its strictness changed. -/
def setStrict (t : RouteTable γ) (strict : Bool) : RouteTable γ := { t with strict := strict }

/-- A table with the same routes in the same order and the same strictness, to be changed on its
own. -/
def copy (t : RouteTable γ) : RouteTable γ :=
  { routes := t.routes.map Route.copy, strict := t.strict }

/-- The registered paths and methods, in order. -/
def keys (t : RouteTable γ) : List (String × Method) :=
  t.routes.map fun route => (route.path, route.method)

/-- The number of routes. -/
def size (t : RouteTable γ) : Nat := t.routes.length

/-- Whether there are no routes. -/
def isEmpty (t : RouteTable γ) : Bool := t.routes.isEmpty

/-- Resolves segments against routes, where `matched` tells whether the template of an earlier
route has matched. -/
def resolveFrom (segments : List String) (method : Method) (matched : Bool) :
    List (Route γ) → Resolution γ
  | [] => if matched then .methodNotAllowed else .notFound
  | route :: rest =>
    match route.bind segments with
    | none => resolveFrom segments method matched rest
    | some params =>
      if route.method = method then .found route params
      else resolveFrom segments method true rest

/-- What segments and a method resolve to. -/
def resolve (t : RouteTable γ) (segments : List String) (method : Method) : Resolution γ :=
  resolveFrom segments method false t.routes

/-- What a path resolves to, its segments taken as they are spelt. -/
def resolvePath (t : RouteTable γ) (path : String) (method : Method) : Resolution γ :=
  t.resolve (pathSegments path) method

@[simp] theorem copy_eq (t : RouteTable γ) : t.copy = t := by
  have hroute : (Route.copy : Route γ → Route γ) = id := rfl
  rw [copy, hroute, List.map_id]

@[simp] theorem keys_remove (t : RouteTable γ) (path : String) (method : Method) :
    (t.remove path method).keys = t.keys.erase (path, method) := by
  simp only [keys, remove]
  induction t.routes with
  | nil => rfl
  | cons route rest ih =>
    by_cases h : route.hasKey path method = true
    · have hkey : (route.path, route.method) = (path, method) := by
        simpa [Route.hasKey] using h
      simp [h, hkey]
    · have hkey : (route.path, route.method) ≠ (path, method) := by
        intro he
        simp only [Prod.mk.injEq] at he
        exact h (by simp [Route.hasKey, he.1, he.2])
      simp [h, hkey, ih]

@[simp] theorem keys_add (t : RouteTable γ) (route : Route γ) :
    (t.add route).keys =
      t.keys.erase (route.path, route.method) ++ [(route.path, route.method)] := by
  have := t.keys_remove route.path route.method
  simp only [keys, add, List.map_append, List.map_cons, List.map_nil] at *
  rw [this]

end RouteTable

/-- A resolution as it is shown. -/
def Resolution.summary {γ : Type} : Resolution γ → String
  | .found _ params =>
    let shown := params.toList.map fun p =>
      Text.quoted p.1.toList ++ ": " ++ Text.quoted p.2.toList
    "Found \x7b params: \x7b" ++ ", ".intercalate shown ++ "\x7d \x7d"
  | .methodNotAllowed => "MethodNotAllowed"
  | .notFound => "NotFound"

end HttpEngine
