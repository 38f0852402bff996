/-!
# Request methods

The nine methods a request line may name, each spelt by a token of capital letters. Tokens are
compared exactly, so `get` names no method. The order of the constructors is the order of
methods.
-/

namespace HttpEngine

/-- A request method. -/
inductive Method where
  | get
  | post
  | put
  | delete
  | head
  | options
  | patch
  | connect
  | trace
  deriving DecidableEq, Repr, Inhabited

namespace Method

/-- The token of a method. -/
def token : Method → String
  | get => "GET"
  | post => "POST"
  | put => "PUT"
  | delete => "DELETE"
  | head => "HEAD"
  | options => "OPTIONS"
  | patch => "PATCH"
  | connect => "CONNECT"
  | trace => "TRACE"

/-- Every method, in order. -/
def all : List Method := [get, post, put, delete, head, options, patch, connect, trace]

/-- The method that a token names. -/
def ofToken? (token : String) : Option Method := all.find? fun m => m.token == token

/-- The distinct methods of a list, in the order of methods. -/
def sorted (ms : List Method) : List Method := all.filter fun m => ms.contains m

@[simp] theorem ofToken?_token (m : Method) : ofToken? m.token = some m := by
  cases m <;> decide

end Method

end HttpEngine
