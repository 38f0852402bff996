import HttpEngine.Proofs.Text.Words
import HttpEngine.Text.Numeral
import Mathlib.Data.List.Basic
import Mathlib.Data.Nat.Digits.Defs
/-!
# Numerals

What is read as a numeral is said by `readNumeral_eq_some_iff`: digits that denote a word, and one
plus sign in front of them or none. So a numeral is digits alone unless it begins with the sign; and
the decimal numeral of a word, which is digits that denote it, is read as the word
(`readNumeral_decimal`).
-/

namespace HttpEngine.Text

variable {n : Nat} {c : Char}

/-- A decimal digit stands for its distance from zero. -/
theorem digitIn_ten (h : c.isDigit = true) : digitIn 10 c = some (c.toNat - '0'.toNat) := by
  obtain ⟨hlow, hhigh⟩ : '0' ≤ c ∧ c ≤ '9' := by
    simpa [Char.isDigit, Char.le_def] using h
  have hlt : c.toNat - '0'.toNat < 10 := by
    have hnine : c.toNat ≤ 57 := hhigh
    have hzero : '0'.toNat = 48 := rfl
    omega
  rw [digitIn, digitValue, if_pos ⟨hlow, hhigh⟩, Option.filter_some, if_pos (by simpa using hlt)]

theorem isDigit_of_mem_decimal (h : c ∈ (decimal n).toList) : c.isDigit = true := by
  rw [decimal, String.toList_ofList] at h
  exact Nat.isDigit_of_mem_toDigits (by decide) (by decide) h

/-- A digit is no blank. -/
theorem isBlank_of_isDigit (h : c.isDigit = true) : isBlank c = false := by
  have hbounds : 48 ≤ c.toNat ∧ c.toNat ≤ 57 := by
    simpa [Char.isDigit, UInt32.le_iff_toNat_le] using h
  simp only [isBlank, Bool.or_eq_false_iff, Bool.and_eq_false_iff, decide_eq_false_iff_not,
    beq_eq_false_iff_ne]
  omega

/-- A number is known by its decimal numeral. -/
theorem decimal_injective : Function.Injective decimal := by
  intro m n h
  rw [decimal, decimal, ← String.toList_inj, String.toList_ofList, String.toList_ofList] at h
  rw [← Nat.ofDigitChars_toDigits (b := 10) (n := m) (by decide) (by decide), h,
    Nat.ofDigitChars_toDigits (by decide) (by decide)]

theorem unbroken_decimal (n : Nat) : Unbroken (decimal n).toList :=
  fun _ hc => isBlank_of_isDigit (isDigit_of_mem_decimal hc)

/-! ### What a numeral is -/

variable {base : Nat} {cs ds : List Char} {digit : Char → Bool}

/-- That a text is **digits** of a class: one of them or more, and nothing else. -/
structure IsDigits (digit : Char → Bool) (cs : List Char) : Prop where
  ne_nil : cs ≠ []
  forall_mem : ∀ c ∈ cs, digit c = true

instance : Decidable (IsDigits digit cs) :=
  decidable_of_iff (cs ≠ [] ∧ cs.all digit = true)
    ⟨fun h => ⟨h.1, List.all_eq_true.1 h.2⟩, fun h => ⟨h.ne_nil, List.all_eq_true.2 h.forall_mem⟩⟩

/-- The number that digits denote in a base, the most significant first. -/
def numberOf (base : Nat) (ds : List Char) : Nat := ofDigits base (ds.filterMap (digitIn base))

/-- The digits below ten are the decimal ones. -/
theorem isSome_digitIn_ten (c : Char) : (digitIn 10 c).isSome = c.isDigit := by
  rw [Bool.eq_iff_iff]
  constructor
  · intro h
    obtain ⟨v, hv⟩ := Option.isSome_iff_exists.1 h
    obtain ⟨hvalue, hlt⟩ := Option.filter_eq_some_iff.1 hv
    rw [decide_eq_true_eq] at hlt
    rw [digitValue] at hvalue
    split_ifs at hvalue with hdigit
    · exact Bool.and_eq_true_iff.2 ⟨decide_eq_true hdigit.1, decide_eq_true hdigit.2⟩
    -- a letter stands for ten or more
    · rw [Option.some.injEq] at hvalue
      omega
    · rw [Option.some.injEq] at hvalue
      omega
  · intro h
    rw [digitIn_ten h]
    rfl

/-- The characters with a value are the hexadecimal digits. -/
theorem isSome_digitValue (c : Char) : (digitValue c).isSome = c.isHexDigit := by
  have hhex : c.isHexDigit = true ↔
      ('0' ≤ c ∧ c ≤ '9') ∨ ('a' ≤ c ∧ c ≤ 'f') ∨ ('A' ≤ c ∧ c ≤ 'F') := by
    simp [Char.isHexDigit, Char.isDigit, Char.le_def, or_assoc]
  rw [Bool.eq_iff_iff, hhex, digitValue]
  split_ifs <;> simp_all

/-- All of them are below sixteen. -/
theorem isSome_digitIn_sixteen (c : Char) : (digitIn 16 c).isSome = c.isHexDigit := by
  rw [digitIn, ← isSome_digitValue]
  cases hvalue : digitValue c with
  | none => rfl
  | some v => rw [Option.filter_some, if_pos (decide_eq_true (digitValue_lt hvalue))]

/-- Reading all of a list succeeds when reading each member does. -/
theorem mapM_eq_some_iff {α β : Type} {f : α → Option β} {as : List α} {bs : List β} :
    as.mapM f = some bs ↔ (∀ a ∈ as, (f a).isSome = true) ∧ bs = as.filterMap f := by
  induction as generalizing bs with
  | nil =>
    rw [List.mapM_nil, List.filterMap_nil, and_iff_right (by simp)]
    exact Option.some_inj.trans eq_comm
  | cons a as ih =>
    rw [List.mapM_cons, List.forall_mem_cons]
    cases ha : f a with
    | none => simp
    | some b =>
      rw [List.filterMap_cons_some ha, Option.bind_eq_bind, Option.bind_some]
      constructor
      · intro h
        obtain ⟨rest, hrest, hbs⟩ := Option.bind_eq_some_iff.1 h
        obtain ⟨hall, rfl⟩ := ih.1 hrest
        exact ⟨⟨rfl, hall⟩, (Option.some_inj.1 hbs).symm⟩
      · rintro ⟨⟨-, hall⟩, rfl⟩
        exact Option.bind_eq_some_iff.2 ⟨_, ih.2 ⟨hall, rfl⟩, rfl⟩

theorem readDigits_eq_some_iff (hdigit : ∀ c, (digitIn base c).isSome = digit c) :
    ((ds.mapM (digitIn base)).map (ofDigits base)).filter (· < wordSize) = some n ↔
      (∀ d ∈ ds, digit d = true) ∧ numberOf base ds = n ∧ n < wordSize := by
  rw [Option.filter_eq_some_iff, Option.map_eq_some_iff, decide_eq_true_eq]
  constructor
  · rintro ⟨⟨vs, hvs, rfl⟩, hword⟩
    obtain ⟨hall, rfl⟩ := mapM_eq_some_iff.1 hvs
    exact ⟨fun d hd => (hdigit d).symm.trans (hall d hd), rfl, hword⟩
  · rintro ⟨hall, rfl, hword⟩
    exact ⟨⟨_, mapM_eq_some_iff.2 ⟨fun d hd => (hdigit d).trans (hall d hd), rfl⟩, rfl⟩, hword⟩

/-- A text without a plus sign in front of it is left as it is. -/
theorem dropPlus_eq_self (h : cs.head? ≠ some '+') : dropPlus cs = cs := by
  rw [dropPlus]
  rintro rest rfl
  exact h rfl

theorem dropPlus_eq_iff (hplus : ds.head? ≠ some '+') :
    dropPlus cs = ds ↔ cs = ds ∨ cs = '+' :: ds := by
  by_cases hcs : cs.head? = some '+'
  · obtain ⟨rest, rfl⟩ := List.head?_eq_some_iff.1 hcs
    have hne : '+' :: rest ≠ ds := by
      rintro rfl
      exact hplus rfl
    simp [dropPlus, hne]
  · have hne : cs ≠ '+' :: ds := by
      rintro rfl
      exact hcs rfl
    rw [dropPlus_eq_self hcs, or_iff_left hne]

/-- Digits do not begin with a plus sign, which is none. -/
theorem IsDigits.head?_ne (hdigit : ∀ c, (digitIn base c).isSome = digit c)
    (h : IsDigits digit ds) : ds.head? ≠ some '+' := by
  intro hhead
  have hplus := (hdigit '+').trans (h.forall_mem '+' (List.mem_of_head? hhead))
  exact Bool.false_ne_true hplus

/-- **What is read as a numeral.** Digits of the base that denote a word, with one plus sign in
front of them or none. -/
theorem readNumeral_eq_some_iff (hdigit : ∀ c, (digitIn base c).isSome = digit c) :
    readNumeral base cs = some n ↔
      ∃ ds, IsDigits digit ds ∧ numberOf base ds = n ∧ n < wordSize ∧
        (cs = ds ∨ cs = '+' :: ds) := by
  constructor
  · intro h
    rw [readNumeral] at h
    split at h
    · simp at h
    · next hne =>
      obtain ⟨hall, hnumber, hword⟩ := (readDigits_eq_some_iff hdigit).1 h
      have hdigits : IsDigits digit (dropPlus cs) := ⟨hne, hall⟩
      exact ⟨_, hdigits, hnumber, hword, (dropPlus_eq_iff (hdigits.head?_ne hdigit)).1 rfl⟩
  · rintro ⟨ds, hdigits, hnumber, hword, hcs⟩
    rw [readNumeral, (dropPlus_eq_iff (hdigits.head?_ne hdigit)).2 hcs]
    split
    · exact absurd rfl hdigits.ne_nil
    · exact (readDigits_eq_some_iff hdigit).2 ⟨hdigits.forall_mem, hnumber, hword⟩

/-- A numeral is digits alone unless it begins with a plus sign. -/
theorem isDigits_iff_of_readNumeral (hdigit : ∀ c, (digitIn base c).isSome = digit c)
    (h : readNumeral base cs = some n) : IsDigits digit cs ↔ cs.head? ≠ some '+' := by
  refine ⟨fun hdigits => hdigits.head?_ne hdigit, fun hplus => ?_⟩
  obtain ⟨ds, hdigits, -, -, rfl | rfl⟩ := (readNumeral_eq_some_iff hdigit).1 h
  · exact hdigits
  · exact absurd rfl hplus

/-! ### Decimal numerals -/

theorem isDigits_decimal (n : Nat) : IsDigits Char.isDigit (decimal n).toList where
  ne_nil := by
    rw [decimal, String.toList_ofList]
    exact Nat.toDigits_ne_nil
  forall_mem _ := isDigit_of_mem_decimal

theorem numberOf_decimal (n : Nat) : numberOf 10 (decimal n).toList = n := by
  have hvalue : ∀ c ∈ (decimal n).toList, digitIn 10 c = some (c.toNat - '0'.toNat) :=
    fun _ hc => digitIn_ten (isDigit_of_mem_decimal hc)
  have hback := Nat.ofDigitChars_toDigits (b := 10) (n := n) (by decide) (by decide)
  rw [Nat.ofDigitChars] at hback
  rw [numberOf, List.filterMap_eq_map_iff_forall_eq_some.2 hvalue, ofDigits, List.foldl_map,
    decimal, String.toList_ofList]
  simpa only [Nat.mul_comm] using hback

/-- **A decimal numeral is read as its number.** -/
theorem readNumeral_decimal (h : n < wordSize) : readNumeral 10 (decimal n).toList = some n :=
  (readNumeral_eq_some_iff isSome_digitIn_ten).2
    ⟨_, isDigits_decimal n, numberOf_decimal n, h, .inl rfl⟩

end HttpEngine.Text
