import HttpEngine.Json.Value
import HttpEngine.Text.Ascii
/-!
# Tokens of JSON

A document is first cut into **tokens**: six marks, three literals, numbers and texts, with
blanks between them. The cut is one pass over the characters with a small state, the token that
is being read. A number or literal ends at the first character that could not belong to one, and
what was collected is then checked as a whole; texts are checked character by character.

Numbers without fraction and exponent that fit a 64-bit word, or its signed counterpart when
negative, are exact. Every other number is the product or quotient of its first digits, as many
as fit a word, and a power of ten; a product beyond the largest double is refused, and a quotient
below the least is zero.
-/

namespace HttpEngine.Json

open Text

/-- A token. -/
inductive Token where
  | openBrace
  | closeBrace
  | openBracket
  | closeBracket
  | colon
  | comma
  /-- A literal, a number or a text: a value by itself. -/
  | scalar (v : Value)
  deriving Inhabited

/-! ### Numbers -/

/-- The largest word. -/
def maxWord : Nat := 0xFFFFFFFFFFFFFFFF

/-- Digits of a whole part collected into a word; `dropped` counts those from the first that does
not fit. -/
structure Collected where
  word : Nat := 0
  dropped : Nat := 0

/-- One more digit of the whole part. -/
def Collected.push (s : Collected) (d : Nat) : Collected :=
  if s.dropped = 0 ∧ s.word * 10 + d ≤ maxWord then ⟨s.word * 10 + d, 0⟩
  else ⟨s.word, s.dropped + 1⟩

/-- The digits of a fraction collected behind a word, up to the first that does not fit, and how
many of them were collected. -/
def collectFraction (word : Nat) : List Nat → Nat × Nat
  | [] => (word, 0)
  | d :: rest =>
    if word * 10 + d ≤ maxWord then
      let (word, count) := collectFraction (word * 10 + d) rest
      (word, count + 1)
    else (word, 0)

/-- A power of ten that is a double. -/
def powerOfTen (n : Nat) : Float := Float.ofScientific 1 false n

/-- The exponent of the largest power of ten that is a double. -/
def maxPower : Nat := 308

/-- A number divided by `10 ^ n`, at most `maxPower` powers at a time; four times that many turn
every word into zero. -/
def divideByPower (x : Float) : Nat → Nat → Float
  | 0, _ => 0
  | fuel + 1, n =>
    if n ≤ maxPower then x / powerOfTen n
    else divideByPower (x / powerOfTen maxPower) fuel (n - maxPower)

/-- The double `word · 10 ^ exponent`, unless it is too large. -/
def scaled (word : Nat) (exponent : Int) : Option Float :=
  let x := word.toUInt64.toFloat
  if 0 ≤ exponent then
    if exponent ≤ maxPower then
      let y := x * powerOfTen exponent.toNat
      if y.isInf then none else some y
    else if word = 0 then some 0 else none
  else some (divideByPower x 4 (-exponent).toNat)

/-- The largest exponent that is told from larger ones. -/
def maxExponent : Nat := 0x7FFFFFFF

/-- The double of a number with fraction or exponent, `exponent?` being the sign and the digits of
the latter. -/
def doubleOf (word : Nat) (shift : Int) (exponent? : Option (Bool × List Nat)) : Option Float :=
  match exponent? with
  | none => scaled word shift
  | some (minus, ds) =>
    let e := ds.foldl (fun n d => n * 10 + d) 0
    if maxExponent < e then if word = 0 ∨ minus then some 0 else none
    else scaled word (if minus then shift - e else shift + e)

/-- The digits at the start of a text, and the rest. -/
def leadingDigits (cs : List Char) : List Nat × List Char :=
  ((cs.takeWhile Char.isDigit).map fun c => c.toNat - '0'.toNat, cs.dropWhile Char.isDigit)

/-- The exponent part that a text consists of: its sign and its digits. -/
def exponentPart (cs : List Char) : Option (Option (Bool × List Nat)) :=
  match cs with
  | [] => some none
  | c :: rest =>
    if c = 'e' ∨ c = 'E' then
      let (minus, rest) := match rest with
        | '+' :: rest => (false, rest)
        | '-' :: rest => (true, rest)
        | rest => (false, rest)
      match leadingDigits rest with
      | ([], _) => none
      | (ds, []) => some (some (minus, ds))
      | _ => none
    else none

/-- The value of a number without its sign, given its whole digits and what follows them. -/
def numberValue (minus : Bool) (whole : List Nat) (rest : List Char) : Option Value :=
  let collected := whole.foldl Collected.push {}
  let signed (x : Option Float) : Option Value := x.map fun x => .float (if minus then -x else x)
  match rest with
  | [] =>
    if collected.dropped ≠ 0 then signed (scaled collected.word collected.dropped)
    else if !minus then some (.nat collected.word)
    else if collected.word = 0 ∨ 0x8000000000000000 < collected.word then
      signed (some collected.word.toUInt64.toFloat)
    else some (.negative collected.word)
  | '.' :: rest =>
    match leadingDigits rest with
    | ([], _) => none
    | (ds, rest) =>
      let (word, count) := collectFraction collected.word ds
      (exponentPart rest).bind fun e => signed (doubleOf word (collected.dropped - count) e)
  | rest => (exponentPart rest).bind fun e => signed (doubleOf collected.word collected.dropped e)

/-- The value that a number denotes. -/
def readNumber (cs : List Char) : Option Value :=
  let (minus, cs) := match cs with
    | '-' :: rest => (true, rest)
    | cs => (false, cs)
  match leadingDigits cs with
  | ([], _) => none
  | (0 :: _ :: _, _) => none
  | (whole, rest) => numberValue minus whole rest

/-- The value of a literal or a number. -/
def readBare (cs : List Char) : Option Value :=
  if cs = "null".toList then some .null
  else if cs = "true".toList then some (.bool true)
  else if cs = "false".toList then some (.bool false)
  else readNumber cs

/-! ### Texts -/

/-- The character of a one-letter escape. -/
def escapedChar (c : Char) : Option Char :=
  match c with
  | '"' => some '"'
  | '\\' => some '\\'
  | '/' => some '/'
  | 'b' => some '\x08'
  | 'f' => some '\x0c'
  | 'n' => some '\n'
  | 'r' => some '\r'
  | 't' => some '\t'
  | _ => none

/-- Whether a number is the first half of a pair of surrogates. -/
def isLeading (n : Nat) : Bool := 0xD800 ≤ n && n ≤ 0xDBFF

/-- Whether a number is the second half of a pair of surrogates. -/
def isTrailing (n : Nat) : Bool := 0xDC00 ≤ n && n ≤ 0xDFFF

/-- Where in a document the next character stands. A text that is being read holds its characters
in reverse, and the first half of a pair whose second half must follow. -/
inductive Place where
  | between
  /-- In a number or literal, its characters in reverse. -/
  | bare (chars : List Char)
  | text (chars : List Char)
  /-- After the backslash of an escape. -/
  | escape (chars : List Char) (leading : Option Nat)
  /-- In the digits of a numbered escape, `count` of them and their value so far. -/
  | digits (chars : List Char) (leading : Option Nat) (count value : Nat)
  /-- After the first half of a pair. -/
  | pair (chars : List Char) (leading : Nat)

/-- The place after a character between tokens, with the token that it is. -/
def Place.start (c : Char) : Option (Place × Option Token) :=
  match c with
  | ' ' | '\n' | '\t' | '\r' => some (.between, none)
  | '\x7b' => some (.between, some .openBrace)
  | '\x7d' => some (.between, some .closeBrace)
  | '[' => some (.between, some .openBracket)
  | ']' => some (.between, some .closeBracket)
  | ':' => some (.between, some .colon)
  | ',' => some (.between, some .comma)
  | '"' => some (.text [], none)
  | c => if c.isAlphanum || c == '-' then some (.bare [c], none) else none

/-- The place after the last digit of a numbered escape. -/
def Place.numbered (chars : List Char) (leading : Option Nat) (value : Nat) : Option Place :=
  match leading with
  | none =>
    if isLeading value then some (.pair chars value)
    else if isTrailing value then none
    else some (.text (Char.ofNat value :: chars))
  | some first =>
    if isTrailing value then
      some (.text (Char.ofNat (0x10000 + (first - 0xD800) * 0x400 + (value - 0xDC00)) :: chars))
    else none

/-- Whether a character may belong to a number or literal. -/
def isBareChar (c : Char) : Bool := c.isAlphanum || c == '-' || c == '+' || c == '.'

/-- The tokens of a document from a given place on. -/
def tokensFrom : Place → List Char → Option (List Token)
  | .between, [] => some []
  | .bare chars, [] => (readBare chars.reverse).map fun v => [.scalar v]
  | _, [] => none
  | .between, c :: rest =>
    match Place.start c with
    | none => none
    | some (place, none) => tokensFrom place rest
    | some (place, some t) => (tokensFrom place rest).map (t :: ·)
  | .bare chars, c :: rest =>
    if isBareChar c then tokensFrom (.bare (c :: chars)) rest
    else
      match readBare chars.reverse, Place.start c with
      | some v, some (place, none) => (tokensFrom place rest).map (.scalar v :: ·)
      | some v, some (place, some t) => (tokensFrom place rest).map fun ts => .scalar v :: t :: ts
      | _, _ => none
  | .text chars, c :: rest =>
    if c = '"' then
      (tokensFrom .between rest).map (.scalar (.str (String.ofList chars.reverse)) :: ·)
    else if c = '\\' then tokensFrom (.escape chars none) rest
    else if c.toNat < 0x20 then none
    else tokensFrom (.text (c :: chars)) rest
  | .escape chars leading, c :: rest =>
    if c = 'u' then tokensFrom (.digits chars leading 0 0) rest
    else
      match leading, escapedChar c with
      | none, some d => tokensFrom (.text (d :: chars)) rest
      | _, _ => none
  | .digits chars leading count value, c :: rest =>
    match digitValue c with
    | none => none
    | some d =>
      if count = 3 then
        match Place.numbered chars leading (value * 16 + d) with
        | some place => tokensFrom place rest
        | none => none
      else tokensFrom (.digits chars leading (count + 1) (value * 16 + d)) rest
  | .pair chars leading, c :: rest =>
    if c = '\\' then tokensFrom (.escape chars (some leading)) rest else none

/-- The tokens of a document. -/
def tokens (cs : List Char) : Option (List Token) := tokensFrom .between cs

end HttpEngine.Json
