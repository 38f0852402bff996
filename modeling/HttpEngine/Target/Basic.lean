import HttpEngine.Target.Percent
import HttpEngine.Target.Reference
import HttpEngine.Text.Map
import HttpEngine.Text.Split
/-!
# Request targets

A **target** is a reference with its path split into segments and its query into parameters,
each percent-decoded after the split, so an encoded separator never separates. One leading `/`
of the path opens the first segment, an empty path has no segments, and a trailing `/` leaves an
empty segment behind it. Query parameters are separated by `&`, empty ones are dropped, a
parameter without `=` has the empty value, and the last value of a key wins.
-/

namespace HttpEngine

open Text

/-- Why a text is no target. -/
inductive TargetError where
  | reference (cause : ReferenceError)
  | component (cause : PercentError)
  deriving DecidableEq, Repr

/-- The wording of a refusal. -/
def TargetError.message : TargetError → String
  | .reference cause => cause.message
  | .component cause => cause.message

/-- The raw segments of a path. -/
def rawSegments (path : List Char) : List (List Char) :=
  let path := match path with
    | '/' :: rest => rest
    | path => path
  if path.isEmpty then [] else path.splitOn '/'

/-- The segments of a path as they are spelt. -/
def pathSegments (path : String) : List String :=
  (rawSegments path.toList).map String.ofList

/-- A parsed target. -/
structure Target where
  /-- The path, still percent-encoded. -/
  path : String
  /-- The decoded segments of the path. -/
  segments : List String
  /-- The query, still percent-encoded and without its `?`. -/
  query : Option String
  /-- The decoded query parameters. -/
  params : TextMap
  deriving DecidableEq

namespace Target

/-- The text that a component stands for. -/
def component (raw : List Char) : Except TargetError String :=
  match Percent.decode raw with
  | .ok text => .ok (String.ofList text)
  | .error cause => .error (.component cause)

/-- The raw key and value of a query parameter. -/
def splitParam (raw : List Char) : List Char × List Char := (cutAt '=' raw).getD (raw, [])

/-- The key and value of a query parameter, the key decoded first. -/
def param (raw : List Char) : Except TargetError (String × String) := do
  let key ← component (splitParam raw).1
  let value ← component (splitParam raw).2
  return (key, value)

/-- The raw parameters of a query. -/
def rawParams (query : List Char) : List (List Char) :=
  (query.splitOn '&').filter fun raw => !raw.isEmpty

/-- The parameters of a query. -/
def params? (query : Option (List Char)) : Except TargetError TextMap :=
  match query with
  | none => .ok ∅
  | some query => do return TextMap.ofList (← (rawParams query).mapM param)

/-- The target that a reference denotes, its segments decoded before its query. -/
def ofReference (r : Reference) : Except TargetError Target := do
  let segments ← (rawSegments r.path).mapM component
  let params ← params? r.query
  return ⟨String.ofList r.path, segments, r.query.map String.ofList, params⟩

/-- The target that a text denotes. -/
def parse (text : String) : Except TargetError Target :=
  match Reference.parse text with
  | .error cause => .error (.reference cause)
  | .ok r => ofReference r

end Target

end HttpEngine
