import HttpEngine.Intake.Decoder
import Mathlib.Data.List.Infix
/-!
# Searches in a growing buffer

The decoder searches a buffer, remembers how far it came, and searches again once the buffer has
grown at its end. Here is what growth does to a search.

A recogniser is **steady** when growth cannot change its mind: what it recognises stays
recognised, a position with a whole window of bytes behind it is decided for good, and so is every
position before one that is recognised. Then a search that succeeds finds the same thing in every
longer buffer (`Steady.find_of_grows`) and in every shorter one that still holds what was found
(`Steady.find_of_extent`), and a search that fails may go on less than one window before the old
end (`Steady.find_resume`).

The end of a line, the blank line and the byte that is no stray one are recognised steadily. For
the blank line, which has two forms, this rests on the shorter form not lying inside the longer.
-/

namespace HttpEngine

variable {β : Type} {f : Buffer → Nat → Option β} {b c : Buffer} {i j start : Nat} {x : β}

/-! ### Bytes of a buffer that grows -/

/-- The bytes from position `i` up to position `j`. -/
def bytesBetween (buf : Buffer) (i j : Nat) : List UInt8 := (buf.toList.drop i).take (j - i)

/-- What is left of a buffer without the bytes at its front. -/
theorem toList_extract (buffer : Buffer) (n : Nat) :
    (buffer.extract n).toList = buffer.toList.drop n := by
  rw [Array.toList_extract, List.extract_eq_take_drop, List.take_of_length_le (by simp)]

theorem getElem?_of_grows {d : Buffer} (hbd : b.toList <+: d.toList) (hi : i < b.size) :
    d[i]? = b[i]? := by
  obtain ⟨x, hx⟩ := hbd
  rw [← Array.getElem?_toList, ← Array.getElem?_toList, ← hx,
    List.getElem?_append_left (by simpa using hi)]

theorem size_le_of_grows (hbc : b.toList <+: c.toList) : b.size ≤ c.size := by
  simpa using hbc.length_le

/-- The bytes up to a position in the shorter buffer are those of the longer. -/
theorem bytesBetween_of_grows (hbc : b.toList <+: c.toList) (hj : j ≤ b.size) :
    bytesBetween c i j = bytesBetween b i j := by
  obtain ⟨x, hx⟩ := hbc
  rw [bytesBetween, bytesBetween, ← hx]
  rcases Nat.le_total i j with hij | hji
  · rw [List.drop_append_of_le_length (by simp; omega),
      List.take_append_of_le_length (by simp; omega)]
  · rw [Nat.sub_eq_zero_of_le hji, List.take_zero, List.take_zero]

theorem standsAt_mono {bytes : List UInt8} (hbc : b.toList <+: c.toList)
    (h : standsAt b i bytes = true) : standsAt c i bytes = true :=
  standsAt_iff.2 ((standsAt_iff.1 h).trans (hbc.drop i))

/-- Bytes that stand in the longer buffer and lie in the shorter stand there too. -/
theorem standsAt_of_le_size {bytes : List UInt8} (hbc : b.toList <+: c.toList)
    (h : standsAt c i bytes = true) (hi : i + bytes.length ≤ b.size) :
    standsAt b i bytes = true := by
  have hlen : bytes.length ≤ (b.toList.drop i).length := by
    rw [List.length_drop, Array.length_toList]
    exact Nat.le_sub_of_add_le' hi
  exact standsAt_iff.2 (List.prefix_of_prefix_length_le (standsAt_iff.1 h) (hbc.drop i) hlen)

/-! ### Bytes that stand at a position -/

section Standing

variable {buf : Buffer} {p : Nat} {bs rest : List UInt8}

/-- What follows bytes that stand at a position stands behind them. -/
theorem prefix_drop_of_append (h : bs ++ rest <+: buf.toList.drop p) :
    rest <+: buf.toList.drop (p + bs.length) := by
  rw [← List.drop_drop]
  simpa using h.drop bs.length

/-- Bytes stand together when the later ones stand behind the earlier. -/
theorem append_prefix_drop (h : bs <+: buf.toList.drop p)
    (hrest : rest <+: buf.toList.drop (p + bs.length)) : bs ++ rest <+: buf.toList.drop p := by
  obtain ⟨more, hmore⟩ := h
  rw [← List.drop_drop, ← hmore, List.drop_left] at hrest
  rw [← hmore]
  exact (List.prefix_append_right_inj bs).2 hrest

theorem add_length_le_size (h : bs <+: buf.toList.drop p) (hne : bs ≠ []) :
    p + bs.length ≤ buf.size := by
  have hpos := List.length_pos_of_ne_nil hne
  have hlen := h.length_le
  simp only [List.length_drop, Array.length_toList] at hlen
  omega

theorem length_bytesBetween {i j : Nat} (hj : j ≤ buf.size) :
    (bytesBetween buf i j).length = j - i := by
  simp only [bytesBetween, List.length_take, List.length_drop, Array.length_toList]
  omega

theorem isPrefix_bytesBetween (buf : Buffer) (i j : Nat) :
    bytesBetween buf i j <+: buf.toList.drop i :=
  List.take_prefix _ _

theorem bytesBetween_of_prefix (h : bs <+: buf.toList.drop p) :
    bytesBetween buf p (p + bs.length) = bs := by
  rw [bytesBetween, Nat.add_sub_cancel_left, ← List.prefix_iff_eq_take.1 h]

end Standing

/-! ### What a search finds -/

theorem findAmong_eq_none_iff {f : Nat → Option β} {count : Nat} :
    findAmong f count i = none ↔ ∀ k, i ≤ k → k < i + count → f k = none := by
  induction count generalizing i with
  | zero =>
    refine iff_of_true rfl fun k hik hk => ?_
    omega
  | succ count ih =>
    rw [findAmong]
    constructor
    · intro h k hik hk
      split at h
      · exact absurd h (by simp)
      · next hi =>
        rcases Nat.eq_or_lt_of_le hik with rfl | hlt
        · exact hi
        · exact ih.1 h k hlt (by omega)
    · intro h
      rw [h i (Nat.le_refl i) (by omega)]
      exact ih.2 fun k hik hk => h k (by omega) (by omega)

/-- Before what is found, nothing is recognised. -/
theorem findAmong_before {f : Nat → Option β} {count k : Nat}
    (h : findAmong f count i = some (j, x)) (hik : i ≤ k) (hkj : k < j) : f k = none := by
  induction count generalizing i with
  | zero => simp [findAmong] at h
  | succ count ih =>
    rw [findAmong] at h
    split at h
    · simp only [Option.some.injEq, Prod.mk.injEq] at h
      omega
    · next hi =>
      rcases Nat.eq_or_lt_of_le hik with rfl | hlt
      · exact hi
      · exact ih h hlt

/-- A search fails when nothing is recognised. -/
theorem findFrom_eq_none_iff :
    findFrom f b i = none ↔ ∀ k, i ≤ k → k < b.size → f b k = none := by
  rw [findFrom, findAmong_eq_none_iff]
  constructor
  · intro h k hik hk
    exact h k hik (by omega)
  · intro h k hik hk
    exact h k hik (by omega)

/-- A search finds the first position that is recognised. -/
theorem findFrom_eq_some_iff :
    findFrom f b i = some (j, x) ↔
      i ≤ j ∧ j < b.size ∧ f b j = some x ∧ ∀ k, i ≤ k → k < j → f b k = none := by
  constructor
  · intro h
    obtain ⟨hij, hj, hx⟩ := findFrom_spec h
    exact ⟨hij, hj, hx, fun k hik hkj => findAmong_before h hik hkj⟩
  · rintro ⟨hij, hj, hx, hbefore⟩
    cases h : findFrom f b i with
    | none => exact absurd hx (by rw [findFrom_eq_none_iff.1 h j hij hj]; simp)
    | some found =>
      obtain ⟨k, y⟩ := found
      obtain ⟨hik, hk, hy⟩ := findFrom_spec h
      -- both are the first
      obtain rfl : k = j := by
        rcases Nat.lt_trichotomy k j with hlt | heq | hgt
        · exact absurd hy (by rw [hbefore k hik hlt]; simp)
        · exact heq
        · exact absurd hx (by rw [findAmong_before h hij hgt]; simp)
      obtain rfl : y = x := Option.some_inj.1 (hy.symm.trans hx)
      rfl

/-- A search may start behind positions where nothing is recognised. -/
theorem findFrom_eq_of_skip (hi : i ≤ start) (h : ∀ k, i ≤ k → k < start → f b k = none) :
    findFrom f b start = findFrom f b i := by
  cases hs : findFrom f b start with
  | none =>
    refine (findFrom_eq_none_iff.2 fun k hik hk => ?_).symm
    rcases Nat.lt_or_ge k start with hlt | hge
    · exact h k hik hlt
    · exact findFrom_eq_none_iff.1 hs k hge hk
  | some found =>
    obtain ⟨j, x⟩ := found
    obtain ⟨hsj, hj, hx, hbefore⟩ := findFrom_eq_some_iff.1 hs
    refine (findFrom_eq_some_iff.2 ⟨by omega, hj, hx, fun k hik hkj => ?_⟩).symm
    rcases Nat.lt_or_ge k start with hlt | hge
    · exact h k hik hlt
    · exact hbefore k hge hkj

/-- What is recognised where a search starts is found there. -/
theorem findFrom_of_recognised (hi : i < b.size) (hx : f b i = some x) :
    findFrom f b i = some (i, x) :=
  findFrom_eq_some_iff.2 ⟨Nat.le_refl i, hi, hx, fun _ hik hki => absurd hik (Nat.not_le.2 hki)⟩

/-- A search that starts where nothing is recognised may start one position later. -/
theorem findFrom_succ (hi : f b i = none) : findFrom f b (i + 1) = findFrom f b i :=
  findFrom_eq_of_skip (Nat.le_succ i) fun k hik hk => by rwa [show k = i by omega]

/-- Beyond the buffer nothing is found. -/
theorem findFrom_of_size_le (hi : b.size ≤ i) : findFrom f b i = none :=
  findFrom_eq_none_iff.2 fun _ hik hk => absurd (hi.trans hik) (Nat.not_le.2 hk)

/-! ### Steady recognisers -/

/-- A recogniser is **steady** when growth at the end of the buffer cannot change its mind about
what it recognises, which has an extent, about a position with a window of bytes from it on, or
about a position before one that is recognised. -/
structure Steady (f : Buffer → Nat → Option β) (window : Nat) (extent : β → Nat) : Prop where
  grow : ∀ {b c : Buffer} {i : Nat} {x : β}, b.toList <+: c.toList →
    f b i = some x → f c i = some x
  reject : ∀ {b c : Buffer} {i : Nat}, b.toList <+: c.toList → i + window ≤ b.size →
    f b i = none → f c i = none
  before : ∀ {b c : Buffer} {i j : Nat} {x : β}, b.toList <+: c.toList → f b j = some x → i < j →
    f b i = none → f c i = none
  cut : ∀ {b c : Buffer} {i : Nat} {x : β}, b.toList <+: c.toList → f c i = some x →
    i + extent x ≤ b.size → f b i = some x
  extent_pos : ∀ x, 0 < extent x

namespace Steady

variable {window : Nat} {extent : β → Nat}

/-- What is found stays found. -/
theorem find_of_grows (hf : Steady f window extent) (hbc : b.toList <+: c.toList)
    (h : findFrom f b i = some (j, x)) : findFrom f c i = some (j, x) := by
  obtain ⟨hij, hj, hx, hbefore⟩ := findFrom_eq_some_iff.1 h
  have hsize := size_le_of_grows hbc
  exact findFrom_eq_some_iff.2 ⟨hij, by omega, hf.grow hbc hx,
    fun k hik hkj => hf.before hbc hx hkj (hbefore k hik hkj)⟩

/-- What is found and lies in a shorter buffer is found there. -/
theorem find_of_extent (hf : Steady f window extent) (hbc : b.toList <+: c.toList)
    (h : findFrom f c i = some (j, x)) (hj : j + extent x ≤ b.size) :
    findFrom f b i = some (j, x) := by
  obtain ⟨hij, -, hx, hbefore⟩ := findFrom_eq_some_iff.1 h
  have hpos := hf.extent_pos x
  refine findFrom_eq_some_iff.2 ⟨hij, by omega, hf.cut hbc hx hj, fun k hik hkj => ?_⟩
  cases hk : f b k with
  | none => rfl
  | some y => exact absurd (hbefore k hik hkj) (by rw [hf.grow hbc hk]; simp)

/-- A search that has failed may go on where a window does not fit any more. -/
theorem find_resume (hf : Steady f window extent) (hbc : b.toList <+: c.toList)
    (h : findFrom f b i = none) (hi : i ≤ start)
    (hstart : start ≤ i ∨ start + window ≤ b.size + 1) (hwindow : 0 < window) :
    findFrom f c start = findFrom f c i := by
  refine findFrom_eq_of_skip hi fun k hik hk => ?_
  -- a whole window behind position `k` was searched in vain
  exact hf.reject hbc (by omega) (findFrom_eq_none_iff.1 h k hik (by omega))

end Steady

/-! ### Marks -/

/-- A recogniser **recognises marks** when it finds those that stand at a position, each with the
bytes it consists of, and no mark lies inside another one, before its end. -/
structure RecognisesMarks (f : Buffer → Nat → Option β) (bytes : β → List UInt8) : Prop where
  eq_some_iff : ∀ {b : Buffer} {i : Nat} {x : β}, f b i = some x ↔ standsAt b i (bytes x) = true
  ne_nil : ∀ x, bytes x ≠ []
  apart : ∀ {x y : β} {k : Nat}, 0 < k → k + (bytes x).length < (bytes y).length →
    ¬ bytes x <+: (bytes y).drop k

/-- Marks are recognised steadily, with the longest of them as the window. -/
theorem RecognisesMarks.steady {bytes : β → List UInt8} {window : Nat}
    (hf : RecognisesMarks f bytes) (hwindow : ∀ x, (bytes x).length ≤ window) :
    Steady f window fun x => (bytes x).length where
  grow hbc h := hf.eq_some_iff.2 (standsAt_mono hbc (hf.eq_some_iff.1 h))
  reject := by
    intro b c i hbc hi h
    cases hc : f c i with
    | none => rfl
    | some y =>
      have hle := hwindow y
      have hy := standsAt_of_le_size hbc (hf.eq_some_iff.1 hc) (by omega)
      exact absurd (hf.eq_some_iff.2 hy) (by rw [h]; simp)
  before := by
    intro b c i j x hbc hx hij h
    cases hc : f c i with
    | none => rfl
    | some y =>
      have hj := standsAt_iff.1 (hf.eq_some_iff.1 hx)
      have hxlen := hj.length_le
      simp only [List.length_drop, Array.length_toList] at hxlen
      have hxpos := List.length_pos_of_ne_nil (hf.ne_nil x)
      rcases Nat.lt_or_ge b.size (i + (bytes y).length) with hlt | hle
      · -- the mark that is found only now would hold the old one inside
        have hy := (standsAt_iff.1 (hf.eq_some_iff.1 hc)).drop (j - i)
        rw [List.drop_drop, Nat.add_sub_cancel' hij.le] at hy
        have hinside : bytes x <+: (bytes y).drop (j - i) := by
          refine List.prefix_of_prefix_length_le (hj.trans (hbc.drop j)) hy ?_
          rw [List.length_drop]
          omega
        exact absurd hinside (hf.apart (by omega) (by omega))
      · have hy := standsAt_of_le_size hbc (hf.eq_some_iff.1 hc) hle
        exact absurd (hf.eq_some_iff.2 hy) (by rw [h]; simp)
  cut hbc h hi := hf.eq_some_iff.2 (standsAt_of_le_size hbc (hf.eq_some_iff.1 h) hi)
  extent_pos x := List.length_pos_of_ne_nil (hf.ne_nil x)

theorem recognisesMarks_lineEndAt? : RecognisesMarks lineEndAt? fun _ => lineEndBytes where
  eq_some_iff := by simp [lineEndAt?]
  ne_nil _ := by decide
  apart hk hlen := absurd hlen (by omega)

/-- The two forms of the blank line begin with different bytes. -/
theorem blankLineAt?_eq_some_iff {blank : BlankLine} :
    blankLineAt? b i = some blank ↔ standsAt b i blank.bytes = true := by
  refine ⟨standsAt_of_blankLineAt?, fun h => ?_⟩
  cases blank with
  | crlf => simp [blankLineAt?, h]
  | lf =>
    have hcrlf : standsAt b i BlankLine.crlf.bytes = false := by
      simp only [BlankLine.bytes, standsAt, Bool.and_eq_true, beq_iff_eq] at h
      simp [BlankLine.bytes, standsAt, h.1]
    simp [blankLineAt?, hcrlf, h]

theorem recognisesMarks_blankLineAt? : RecognisesMarks blankLineAt? BlankLine.bytes where
  eq_some_iff := blankLineAt?_eq_some_iff
  ne_nil x := by cases x <;> decide
  apart := by
    intro x y k hk hlen
    cases x <;> cases y <;> simp only [BlankLine.bytes, List.length_cons, List.length_nil] at hlen
    all_goals try omega
    -- the shorter form behind the first byte of the longer
    obtain rfl : k = 1 := by omega
    decide

theorem steady_lineEndAt? : Steady lineEndAt? 2 fun _ => lineEndLength :=
  recognisesMarks_lineEndAt?.steady fun _ => Nat.le_refl _

theorem steady_blankLineAt? : Steady blankLineAt? 4 BlankLine.length :=
  recognisesMarks_blankLineAt?.steady fun x => by cases x <;> decide

/-- A byte that is no stray one is recognised by itself. -/
theorem properAt?_of_grows (hbc : b.toList <+: c.toList) (hi : i < b.size) :
    Decoder.properAt? c i = Decoder.properAt? b i := by
  rw [Decoder.properAt?, Decoder.properAt?, getElem?_of_grows hbc hi]

theorem lt_size_of_properAt? {byte : UInt8} (h : Decoder.properAt? b i = some byte) :
    i < b.size := by
  rw [Decoder.properAt?, Option.filter_eq_some_iff] at h
  exact (Array.getElem?_eq_some_iff.1 h.1).1

theorem steady_properAt? : Steady Decoder.properAt? 1 fun _ => 1 where
  grow hbc h := (properAt?_of_grows hbc (lt_size_of_properAt? h)).trans h
  reject hbc hi h := (properAt?_of_grows hbc hi).trans h
  before hbc hx hij h :=
    (properAt?_of_grows hbc (hij.trans (lt_size_of_properAt? hx))).trans h
  cut hbc h hi := (properAt?_of_grows hbc hi).symm.trans h
  extent_pos _ := Nat.one_pos

end HttpEngine
