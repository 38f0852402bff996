/-!
# JSON values

A value is a literal, a number, a text, a list or an object. The members of an object are listed
in order of their names, each name once. Numbers come in three kinds: natural numbers and
negative integers that fit a 64-bit word, and floating-point numbers for everything else.
-/

namespace HttpEngine.Json

/-- A JSON value. -/
inductive Value where
  | null
  | bool (b : Bool)
  | nat (n : Nat)
  /-- The integer `-n`, for a positive `n`. -/
  | negative (n : Nat)
  | float (x : Float)
  | str (s : String)
  | arr (items : List Value)
  | obj (members : List (String × Value))
  deriving Inhabited

/-- The members of an object. -/
abbrev Members := List (String × Value)

/-- Members with one added, in order of names; a member of the same name is replaced. -/
def Members.insert (name : String) (value : Value) : Members → Members
  | [] => [(name, value)]
  | m :: rest =>
    if name < m.1 then (name, value) :: m :: rest
    else if name = m.1 then (name, value) :: rest
    else m :: Members.insert name value rest

namespace Value

/-- The object with the given members, the last of a name winning. -/
def ofMembers (ms : Members) : Value :=
  .obj (ms.foldl (fun acc m => Members.insert m.1 m.2 acc) [])

/-- The member of an object with a given name. -/
def member? (v : Value) (name : String) : Option Value :=
  match v with
  | .obj members => (members.find? fun m => m.1 == name).map (·.2)
  | _ => none

end Value

end HttpEngine.Json
