/-!
# Text compared up to ASCII case

Field names, transfer codings and connection options are compared **up to ASCII case**: the
twenty-six letters `A` to `Z` stand for their lower case, and every other character, accented
letters and the Kelvin sign included, stands for itself only. Equality of `foldCase` is
therefore an equivalence, which is all that later modules use of it.
-/

namespace HttpEngine.Text

/-- The **case-folded** spelling of a text: its ASCII capitals in lower case. -/
def foldCase (s : String) : List Char := s.toList.map Char.toLower

/-- Whether characters fold to given ones. -/
def foldsTo : List Char → List Char → Bool
  | [], [] => true
  | c :: cs, d :: ds => c.toLower == d && foldsTo cs ds
  | _, _ => false

/-- Whether a text folds to given characters. -/
def agreesWith (s : String) (folded : List Char) : Bool := foldsTo s.toList folded

/-- Two texts **agree up to case** when they fold to the same characters. -/
def sameFolded (a b : String) : Bool := agreesWith a (foldCase b)

theorem foldsTo_iff {cs ds : List Char} : foldsTo cs ds = true ↔ cs.map Char.toLower = ds := by
  induction cs generalizing ds with
  | nil => cases ds <;> simp [foldsTo]
  | cons c cs ih =>
    cases ds with
    | nil => simp [foldsTo]
    | cons d ds => simp [foldsTo, ih]

theorem agreesWith_iff {s : String} {folded : List Char} :
    agreesWith s folded = true ↔ foldCase s = folded :=
  foldsTo_iff

theorem sameFolded_iff {a b : String} : sameFolded a b = true ↔ foldCase a = foldCase b :=
  agreesWith_iff

@[simp] theorem sameFolded_refl (a : String) : sameFolded a a = true :=
  sameFolded_iff.2 rfl

theorem sameFolded_comm (a b : String) : sameFolded a b = sameFolded b a :=
  Bool.eq_iff_iff.2 (by rw [sameFolded_iff, sameFolded_iff, eq_comm])

theorem sameFolded_trans {a b c : String} (hab : sameFolded a b = true)
    (hbc : sameFolded b c = true) : sameFolded a c = true := by
  rw [sameFolded_iff] at *
  exact hab.trans hbc

/-! ### Digits -/

/-- The value of a digit, decimal or hexadecimal in either case. -/
def digitValue (c : Char) : Option Nat :=
  if '0' ≤ c ∧ c ≤ '9' then some (c.toNat - '0'.toNat)
  else if 'a' ≤ c ∧ c ≤ 'f' then some (c.toNat - 'a'.toNat + 10)
  else if 'A' ≤ c ∧ c ≤ 'F' then some (c.toNat - 'A'.toNat + 10)
  else none

/-- A digit never stands for more than fifteen. -/
theorem digitValue_lt {c : Char} {v : Nat} (h : digitValue c = some v) : v < 16 := by
  simp only [digitValue, Char.le_def, UInt32.le_iff_toNat_le] at h
  split at h
  · simp only [Option.some.injEq] at h
    have : ('0' : Char).toNat = 48 := rfl
    have : ('9' : Char).val.toNat = 57 := rfl
    have : c.toNat = c.val.toNat := rfl
    omega
  · split at h
    · simp only [Option.some.injEq] at h
      have : ('a' : Char).toNat = 97 := rfl
      have : ('f' : Char).val.toNat = 102 := rfl
      have : c.toNat = c.val.toNat := rfl
      omega
    · split at h
      · simp only [Option.some.injEq] at h
        have : ('A' : Char).toNat = 65 := rfl
        have : ('F' : Char).val.toNat = 70 := rfl
        have : c.toNat = c.val.toNat := rfl
        omega
      · simp at h

end HttpEngine.Text
