import HttpEngine.Text.Unprintable
/-!
# Quoted text

The form in which messages show a text that may hold anything: between double quotes, with the
quote and the backslash escaped, the usual letters for tab, line feed, carriage return and NUL,
and every other unprintable character by its number. A single quote stands for itself.
-/

namespace HttpEngine.Text

/-- How one character is written inside double quotes. -/
def quotedChar (c : Char) : List Char :=
  match c with
  | '\x00' => ['\\', '0']
  | '\t' => ['\\', 't']
  | '\n' => ['\\', 'n']
  | '\r' => ['\\', 'r']
  | '"' => ['\\', '"']
  | '\\' => ['\\', '\\']
  | c =>
    if isUnprintable c then ['\\', 'u', '\x7b'] ++ Nat.toDigits 16 c.toNat ++ ['\x7d'] else [c]

/-- A text in double quotes. -/
def quoted (cs : List Char) : String :=
  String.ofList ('"' :: cs.flatMap quotedChar ++ ['"'])

end HttpEngine.Text
