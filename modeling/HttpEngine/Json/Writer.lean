import HttpEngine.Decimal.Shortest
import HttpEngine.Json.Value
/-!
# Writing JSON

Values are written without blanks. In texts the quote, the backslash and the control characters
below the space are escaped, by a letter where there is one and by four hexadecimal digits
otherwise; every other character stands for itself. Floating-point numbers have the fewest
digits that read back, in positional notation from `1e-5` up to sixteen digits before the point
and with a signed exponent outside that range.
-/

namespace HttpEngine.Json

open Decimal

/-- How one character is written in a text. -/
def writtenChar (c : Char) : List Char :=
  match c with
  | '"' => ['\\', '"']
  | '\\' => ['\\', '\\']
  | '\x08' => ['\\', 'b']
  | '\t' => ['\\', 't']
  | '\n' => ['\\', 'n']
  | '\x0c' => ['\\', 'f']
  | '\r' => ['\\', 'r']
  | c =>
    if c.toNat < 0x20 then
      ['\\', 'u', '0', '0', Nat.digitChar (c.toNat / 16), Nat.digitChar (c.toNat % 16)]
    else [c]

/-- A text as it is written, quotes included. -/
def writtenText (s : String) : String :=
  String.ofList ('"' :: s.toList.flatMap writtenChar ++ ['"'])

/-- Digits with a decimal point or an exponent, where `power` is that of the last digit. -/
def writtenDigits (digits : List Char) (power : Int) : List Char :=
  let count := digits.length
  -- How many digits stand before the point.
  let whole : Int := count + power
  if 0 ≤ power ∧ whole ≤ 16 then digits ++ List.replicate power.toNat '0' ++ ['.', '0']
  else if 0 < whole ∧ whole ≤ 16 then
    digits.take whole.toNat ++ ['.'] ++ digits.drop whole.toNat
  else if -5 < whole ∧ whole ≤ 0 then
    ['0', '.'] ++ List.replicate (-whole).toNat '0' ++ digits
  else
    let mantissa :=
      if count = 1 then digits else digits.take 1 ++ ['.'] ++ digits.drop 1
    let sign := if 0 < whole then '+' else '-'
    mantissa ++ ['e', sign] ++ Nat.toDigits 10 (whole - 1).natAbs

/-- A finite floating-point number as it is written. -/
def writtenFloat (x : Float) : String :=
  let bits := x.toBits.toNat
  let magnitude := bits % 0x8000000000000000
  let sign := if bits < 0x8000000000000000 then [] else ['-']
  if magnitude = 0 then String.ofList (sign ++ ['0', '.', '0'])
  else
    let (digits, power) := shortest magnitude
    String.ofList (sign ++ writtenDigits digits power)

mutual

/-- A value as it is written. -/
def Value.write : Value → String
  | .null => "null"
  | .bool true => "true"
  | .bool false => "false"
  | .nat n => toString n
  | .negative n => "-" ++ toString n
  | .float x => writtenFloat x
  | .str s => writtenText s
  | .arr items => "[" ++ ",".intercalate (writeItems items) ++ "]"
  | .obj members => "\x7b" ++ ",".intercalate (writeMembers members) ++ "\x7d"

/-- The items of a list as they are written. -/
def writeItems : List Value → List String
  | [] => []
  | v :: rest => v.write :: writeItems rest

/-- The members of an object as they are written. -/
def writeMembers : List (String × Value) → List String
  | [] => []
  | (name, v) :: rest => (writtenText name ++ ":" ++ v.write) :: writeMembers rest

end

end HttpEngine.Json
