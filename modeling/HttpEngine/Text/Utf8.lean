/-!
# UTF-8

The characters of a byte string, or its first **flaw**. Reading is one pass over the bytes: at a
boundary between characters a byte below `0x80` is a character by itself and any other byte must
open a sequence; inside a sequence the next byte must lie in the range that the bytes before it
leave open. The ranges are those of the well-formed sequences, so overlong forms, surrogates and
numbers above `0x10FFFF` are refused at the first byte that could not belong to a character.

A flaw therefore says how long the longest well-formed beginning is that could not go on, and
where it starts; a sequence that the end of input cuts short is told apart from it.
-/

namespace HttpEngine.Text.Utf8

/-- Why a byte string is not UTF-8. -/
inductive Flaw where
  /-- The `length` bytes at `index` are no character and begin none. -/
  | invalid (length index : Nat)
  /-- The input ends inside the character that starts at `index`. -/
  | incomplete (index : Nat)
  deriving DecidableEq, Repr

/-- The wording of a flaw. -/
def Flaw.message : Flaw → String
  | .invalid length index =>
    "invalid utf-8 sequence of " ++ toString length ++ " bytes from index " ++ toString index
  | .incomplete index => "incomplete utf-8 byte sequence from index " ++ toString index

/-- A sequence of which at least one byte is still to come. -/
structure Sequence where
  /-- Where it starts. -/
  start : Nat
  /-- How many bytes are still to come. -/
  missing : Nat
  /-- The least and the greatest value that the next byte may have. -/
  low : Nat
  high : Nat
  /-- The bits read so far. -/
  bits : Nat
  deriving DecidableEq, Repr

/-- The sequence that a byte opens at `index`, if it opens one. -/
def Sequence.opening (index byte : Nat) : Option Sequence :=
  if 0xC2 ≤ byte ∧ byte ≤ 0xDF then some ⟨index, 1, 0x80, 0xBF, byte - 0xC0⟩
  else if 0xE0 ≤ byte ∧ byte ≤ 0xEF then
    some ⟨index, 2, if byte = 0xE0 then 0xA0 else 0x80, if byte = 0xED then 0x9F else 0xBF,
      byte - 0xE0⟩
  else if 0xF0 ≤ byte ∧ byte ≤ 0xF4 then
    some ⟨index, 3, if byte = 0xF0 then 0x90 else 0x80, if byte = 0xF4 then 0x8F else 0xBF,
      byte - 0xF0⟩
  else none

/-- The bits of a sequence once `byte` is read. -/
def Sequence.push (s : Sequence) (byte : Nat) : Nat := s.bits * 64 + byte % 64

/-- The characters of the bytes from `index` on, where `open?` is the sequence that the bytes
before `index` have left unfinished. -/
def decodeFrom (index : Nat) (open? : Option Sequence) : List UInt8 → Except Flaw (List Char)
  | [] =>
    match open? with
    | none => .ok []
    | some s => .error (.incomplete s.start)
  | b :: rest =>
    match open? with
    | none =>
      if b.toNat < 0x80 then
        (decodeFrom (index + 1) none rest).map (Char.ofNat b.toNat :: ·)
      else
        match Sequence.opening index b.toNat with
        | some s => decodeFrom (index + 1) (some s) rest
        | none => .error (.invalid 1 index)
    | some s =>
      if s.low ≤ b.toNat ∧ b.toNat ≤ s.high then
        if s.missing = 1 then
          (decodeFrom (index + 1) none rest).map (Char.ofNat (s.push b.toNat) :: ·)
        else
          decodeFrom (index + 1)
            (some ⟨s.start, s.missing - 1, 0x80, 0xBF, s.push b.toNat⟩) rest
      else .error (.invalid (index - s.start) s.start)

/-- The characters that a byte string encodes. -/
def decode (bytes : List UInt8) : Except Flaw (List Char) := decodeFrom 0 none bytes

/-- The bytes that encode a list of characters. -/
def encode (cs : List Char) : List UInt8 := cs.flatMap String.utf8EncodeChar

/-- The bytes that encode a text. -/
def bytesOf (s : String) : List UInt8 := encode s.toList

@[simp] theorem decode_nil : decode [] = .ok [] := rfl

@[simp] theorem encode_nil : encode [] = [] := rfl

theorem encode_cons (c : Char) (cs : List Char) :
    encode (c :: cs) = String.utf8EncodeChar c ++ encode cs := by
  simp [encode]

theorem encode_append (cs ds : List Char) : encode (cs ++ ds) = encode cs ++ encode ds := by
  simp [encode]

end HttpEngine.Text.Utf8
