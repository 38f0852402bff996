import HttpEngine.Text.Ascii
/-!
# References

A request line names its target by a **reference** in one of four forms:

* *origin form*, a path that starts with `/`, and perhaps a query;
* *absolute form*, a scheme, `://`, a non-empty authority, and then a path and query;
* *authority form*, an authority and nothing else;
* the single character `*`.

What a server needs of a reference is its path and its query. A fragment is dropped unread, an
absent path reads as `/` except in authority form, where there is none, and a path or query is
only checked for the characters it may hold. The authority is checked as far as its brackets,
its colons and its percent signs go.
-/

namespace HttpEngine

/-- Why a text is no reference. -/
inductive ReferenceError where
  | tooLong
  | empty
  | invalidCharacter
  | invalidAuthority
  | invalidFormat
  | schemeTooLong
  deriving DecidableEq, Repr

/-- The wording of a refusal. -/
def ReferenceError.message : ReferenceError → String
  | .tooLong => "uri too long"
  | .empty => "empty string"
  | .invalidCharacter => "invalid uri character"
  | .invalidAuthority => "invalid authority"
  | .invalidFormat => "invalid format"
  | .schemeTooLong => "scheme too long"

/-- The path and the query of a reference, both still percent-encoded. -/
structure Reference where
  path : List Char
  query : Option (List Char)
  deriving DecidableEq, Repr

namespace Reference

/-- The longest reference that is read, in bytes. -/
def maxBytes : Nat := 65534

/-- The longest scheme of an absolute reference. -/
def maxScheme : Nat := 64

/-! ### Characters -/

/-- The characters outside ASCII, which paths and queries may hold. -/
def isBeyondAscii (c : Char) : Bool := 0x80 ≤ c.toNat

/-- The characters of a scheme. -/
def isSchemeChar (c : Char) : Bool :=
  c.isAlphanum || c == '+' || c == '.' || c == '~' || c == '-'

/-- The characters of an authority that need no rule of their own there. -/
def isAuthorityChar (c : Char) : Bool :=
  c.isAlphanum || "!$&'()*+,-.;=_~".toList.contains c

/-- The characters that paths and queries share. All beyond ASCII are among them, but no control is,
the delete character no more than the others. -/
def isHierarchyChar (c : Char) : Bool :=
  isBeyondAscii c || c.isAlphanum || "!$%&'()*+,-./:;=@[\\]^_\x7b|\x7d~".toList.contains c

/-- The characters of a path. -/
def isPathChar (c : Char) : Bool := isHierarchyChar c || c == '"'

/-- The characters of a query. -/
def isQueryChar (c : Char) : Bool := isHierarchyChar c || c == '?' || c == '\x60'

/-! ### Authorities -/

/-- What the characters of an authority have shown so far. The colons and the percent sign count
only since the last `@` or `]`, for before it they belong to a user name or an address. -/
structure AuthorityScan where
  colons : Nat := 0
  opened : Bool := false
  closed : Bool := false
  percent : Bool := false
  endsInAt : Bool := false

/-- The most colons that a scan may count. -/
def maxColons : Nat := 8

/-- The scan after one more character, which is none of `/`, `?` and `#`. -/
def AuthorityScan.step (s : AuthorityScan) (c : Char) : Except ReferenceError AuthorityScan :=
  if c = ':' then
    if maxColons ≤ s.colons then .error .invalidAuthority
    else .ok { s with colons := s.colons + 1, endsInAt := false }
  else if c = '[' then
    if s.percent || s.opened then .error .invalidAuthority
    else .ok { s with opened := true, endsInAt := false }
  else if c = ']' then
    if !s.opened || s.closed then .error .invalidAuthority
    else .ok { s with closed := true, colons := 0, percent := false, endsInAt := false }
  else if c = '@' then .ok { s with colons := 0, percent := false, endsInAt := true }
  else if c = '%' then .ok { s with percent := true, endsInAt := false }
  else if isAuthorityChar c then .ok { s with endsInAt := false }
  else .error .invalidCharacter

/-- Whether an authority may end here. -/
def AuthorityScan.accepts (s : AuthorityScan) : Bool :=
  s.opened == s.closed && s.colons ≤ 1 && !s.endsInAt && !s.percent

/-- Whether a character ends an authority. -/
def endsAuthority (c : Char) : Bool := c == '/' || c == '?' || c == '#'

/-- What follows the authority at the start of a text. -/
def dropAuthority (s : AuthorityScan) : List Char → Except ReferenceError (List Char)
  | [] => if s.accepts then .ok [] else .error .invalidAuthority
  | c :: rest =>
    if endsAuthority c then
      if s.accepts then .ok (c :: rest) else .error .invalidAuthority
    else
      match s.step c with
      | .ok s => dropAuthority s rest
      | .error e => .error e

/-! ### Forms -/

/-- What follows the scheme and `://` of an absolute reference, or `none` for other references. -/
def dropScheme (cs : List Char) : Except ReferenceError (Option (List Char)) :=
  match cs.dropWhile isSchemeChar with
  | ':' :: '/' :: '/' :: rest =>
    if cs.length ≤ 3 then .ok none
    else if maxScheme < (cs.takeWhile isSchemeChar).length then .error .schemeTooLong
    else .ok (some rest)
  | _ => .ok none

/-- The path and query that a text spells, up to its fragment. -/
def ofPathAndQuery (cs : List Char) : Except ReferenceError Reference :=
  let path := cs.takeWhile fun c => c != '?' && c != '#'
  if !path.all isPathChar then .error .invalidCharacter
  else
    let path := if path.isEmpty then ['/'] else path
    match cs.dropWhile fun c => c != '?' && c != '#' with
    | '?' :: rest =>
      let query := rest.takeWhile (· != '#')
      if query.all isQueryChar then .ok ⟨path, some query⟩ else .error .invalidCharacter
    | _ => .ok ⟨path, none⟩

/-- A reference in absolute form, after its scheme. -/
def ofHierarchy (cs : List Char) : Except ReferenceError Reference :=
  if cs.isEmpty then .error .empty
  else
    match dropAuthority {} cs with
    | .error e => .error e
    | .ok rest => if rest.length = cs.length then .error .invalidFormat else ofPathAndQuery rest

/-- A reference in authority form, which has no path. Of a lone character that ends an authority
nothing is left to be one. -/
def ofAuthority (cs : List Char) : Except ReferenceError Reference :=
  match dropAuthority {} cs with
  | .error e => .error e
  | .ok [] => .ok ⟨[], none⟩
  | .ok _ => .error (if cs.length = 1 then .invalidCharacter else .invalidFormat)

/-- The path and query of a reference. -/
def parse (text : String) : Except ReferenceError Reference :=
  if maxBytes < text.utf8ByteSize then .error .tooLong
  else
    match text.toList with
    | [] => .error .empty
    | '/' :: rest => ofPathAndQuery ('/' :: rest)
    | ['*'] => .ok ⟨['*'], none⟩
    | cs =>
      match dropScheme cs with
      | .error e => .error e
      | .ok (some rest) => ofHierarchy rest
      | .ok none => ofAuthority cs

end Reference

end HttpEngine
