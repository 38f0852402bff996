import HttpEngine.Json.Token
/-!
# Reading JSON

The tokens of a document are folded into its value with a stack of the lists and objects that
are open. What may come next is a state of its own, so a comma before a closing bracket or a
name without a value has no step. At most 127 lists and objects may be open at once; of two
members with one name the last counts.
-/

namespace HttpEngine.Json

/-- A list or object that is open; an object remembers the name that awaits its value. -/
inductive Frame where
  /-- Items in reverse. -/
  | arr (items : List Value)
  | obj (members : Members) (name : String)

/-- What the next token has to be. -/
inductive Expected where
  | value
  /-- The first item of a list, or its end. -/
  | firstItem
  /-- The first name of an object, or its end. -/
  | firstName
  | name
  | colon
  /-- A comma, or the end of what is open. -/
  | separator
  deriving DecidableEq

/-- A document that has been read in part: what is open, innermost first, what comes next, and the
value once nothing is open any more. -/
structure Reading where
  frames : List Frame := []
  expected : Expected := .value
  result : Option Value := none

/-- The most lists and objects that may be open at once. -/
def maxOpen : Nat := 127

namespace Reading

/-- A complete value takes its place in what is open. -/
def put (r : Reading) (v : Value) : Reading :=
  match r.frames with
  | [] => { frames := [], expected := .separator, result := some v }
  | .arr items :: rest => { frames := .arr (v :: items) :: rest, expected := .separator }
  | .obj members name :: rest =>
    { frames := .obj (Members.insert name v members) "" :: rest, expected := .separator }

/-- A list or object opens. -/
def push (r : Reading) (frame : Frame) (expected : Expected) : Option Reading :=
  if r.frames.length < maxOpen then some { frames := frame :: r.frames, expected := expected }
  else none

/-- Whether a value may come next. -/
def wantsValue (r : Reading) : Bool :=
  r.result.isNone && (r.expected == .value || r.expected == .firstItem)

/-- One more token. -/
def step (r : Reading) (t : Token) : Option Reading :=
  match t with
  | .openBracket => if r.wantsValue then r.push (.arr []) .firstItem else none
  | .openBrace => if r.wantsValue then r.push (.obj [] "") .firstName else none
  | .scalar v =>
    if r.wantsValue then some (r.put v)
    else
      match v, r.frames with
      | .str name, .obj members _ :: rest =>
        if r.expected = .firstName ∨ r.expected = .name then
          some { frames := .obj members name :: rest, expected := .colon }
        else none
      | _, _ => none
  | .colon => if r.expected = .colon then some { r with expected := .value } else none
  | .comma =>
    match r.expected, r.frames with
    | .separator, .arr _ :: _ => some { r with expected := .value }
    | .separator, .obj _ _ :: _ => some { r with expected := .name }
    | _, _ => none
  | .closeBracket =>
    match r.frames with
    | .arr items :: rest =>
      if r.expected = .separator ∨ r.expected = .firstItem then
        some ({ r with frames := rest }.put (.arr items.reverse))
      else none
    | _ => none
  | .closeBrace =>
    match r.frames with
    | .obj members _ :: rest =>
      if r.expected = .separator ∨ r.expected = .firstName then
        some ({ r with frames := rest }.put (.obj members))
      else none
    | _ => none

end Reading

/-- The value that a document denotes. -/
def read (cs : List Char) : Option Value :=
  match tokens cs with
  | none => none
  | some ts => (ts.foldlM Reading.step {}).bind (·.result)

end HttpEngine.Json
