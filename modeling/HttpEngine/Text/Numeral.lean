import HttpEngine.Text.Ascii
/-!
# Numerals

Lengths and chunk sizes are **numerals** in base ten or sixteen that denote a 64-bit word: one or
more digits, leading zeros allowed, with at most one plus sign in front. A minus sign, a blank, a
digit group mark or a value that is no 64-bit word makes a text no numeral.
-/

namespace HttpEngine.Text

/-- The number of values of a word. -/
def wordSize : Nat := 0x10000000000000000

/-- The value of a digit in a base of at most sixteen. -/
def digitIn (base : Nat) (c : Char) : Option Nat :=
  (digitValue c).filter (· < base)

/-- The number that digits denote, most significant first. -/
def ofDigits (base : Nat) (ds : List Nat) : Nat := ds.foldl (fun n d => n * base + d) 0

/-- A text without the one plus sign that it may start with. -/
def dropPlus : List Char → List Char
  | '+' :: rest => rest
  | cs => cs

/-- The word that a numeral denotes. -/
def readNumeral (base : Nat) (cs : List Char) : Option Nat :=
  match dropPlus cs with
  | [] => none
  | ds => ((ds.mapM (digitIn base)).map (ofDigits base)).filter (· < wordSize)

/-- The decimal numeral of a number, without leading zeros. -/
def decimal (n : Nat) : String := String.ofList (Nat.toDigits 10 n)

theorem lt_of_readNumeral {base n : Nat} {cs : List Char} (h : readNumeral base cs = some n) :
    n < wordSize := by
  unfold readNumeral at h
  split at h
  · simp at h
  · simp only [Option.filter_eq_some_iff, decide_eq_true_eq] at h
    exact h.2

end HttpEngine.Text
