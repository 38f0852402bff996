import HttpEngine.Text.Ascii
import HttpEngine.Text.Quoted
import HttpEngine.Text.Utf8
/-!
# Percent-encoded components

A component of a target stands for the text whose UTF-8 bytes it spells: `%` and two hexadecimal
digits spell one byte, and any other character, the plus sign included, spells its own bytes. A
component is refused when a `%` is not followed by two digits, or when the bytes that it spells
are not UTF-8.
-/

namespace HttpEngine

open Text

/-- Why a component stands for no text. -/
inductive PercentError where
  /-- A `%` in `raw` is not followed by two hexadecimal digits. -/
  | malformedEscape (raw : List Char)
  /-- The bytes that `raw` spells are not UTF-8. -/
  | notUtf8 (raw : List Char) (flaw : Utf8.Flaw)
  deriving DecidableEq, Repr

/-- The wording of a refusal. -/
def PercentError.message : PercentError → String
  | .malformedEscape raw => "malformed percent-escape in " ++ quoted raw
  | .notUtf8 raw flaw => quoted raw ++ " is not valid UTF-8 once decoded: " ++ flaw.message

namespace Percent

/-- The byte that two hexadecimal digits denote. -/
def byteOf (high low : Char) : Option UInt8 :=
  match digitValue high, digitValue low with
  | some h, some l => some (UInt8.ofNat (16 * h + l))
  | _, _ => none

/-- The bytes that a component spells, if all its escapes are well formed. -/
def unescape : List Char → Option (List UInt8)
  | [] => some []
  | '%' :: rest =>
    match rest with
    | high :: low :: rest =>
      match byteOf high low with
      | some b => (unescape rest).map (b :: ·)
      | none => none
    | _ => none
  | c :: rest => (unescape rest).map (String.utf8EncodeChar c ++ ·)

/-- The text that a component stands for. -/
def decode (raw : List Char) : Except PercentError (List Char) :=
  match unescape raw with
  | none => .error (.malformedEscape raw)
  | some bytes =>
    match Utf8.decode bytes with
    | .ok text => .ok text
    | .error flaw => .error (.notUtf8 raw flaw)

@[simp] theorem unescape_nil : unescape [] = some [] := rfl

/-- A character that opens no escape spells its own bytes. -/
theorem unescape_cons {c : Char} (hc : c ≠ '%') (rest : List Char) :
    unescape (c :: rest) = (unescape rest).map (String.utf8EncodeChar c ++ ·) := by
  rw [unescape]
  exact fun h => hc h

end Percent

end HttpEngine
