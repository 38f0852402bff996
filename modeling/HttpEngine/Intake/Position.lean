/-!
# Positions in a buffer

The decoder works on a buffer that grows, and remembers positions in it. Here are the two things
it does with them: to look for the first position from one on where something is recognised, and
to take the bytes between two positions. A **slice** exists only if both positions lie in the
buffer in order; that the decoder never asks for another one is proved where it asks.

Two things are recognised: the end of a line, which is CR LF, and the blank line that ends a head.
The latter is CR LF CR LF or LF LF, so a head may use either line ending.

A buffer is an array, for bytes join it at its end and are looked up by position. Its view is the
list of its bytes: `standsAt_iff` and `slice?_eq_some` say what a look and a slice are in that list.
-/

namespace HttpEngine

/-- Bytes that are read by position. -/
abbrev Buffer := Array UInt8

/-- The bytes from position `i` up to position `j`, if these lie in the buffer in order. -/
def slice? (buf : Buffer) (i j : Nat) : Option (List UInt8) :=
  if i ≤ j ∧ j ≤ buf.size then some (buf.extract i j).toList else none

theorem slice?_eq_some {buf : Buffer} {i j : Nat} (hij : i ≤ j) (hj : j ≤ buf.size) :
    slice? buf i j = some ((buf.toList.drop i).take (j - i)) := by
  simp [slice?, hij, hj]

/-! ### Searching -/

/-- The first of `count` positions from `i` on where something is recognised, and as what. -/
@[specialize] def findAmong {β : Type} (f : Nat → Option β) : Nat → Nat → Option (Nat × β)
  | 0, _ => none
  | count + 1, i =>
    match f i with
    | some x => some (i, x)
    | none => findAmong f count (i + 1)

/-- The first position from `i` on where something is recognised in a buffer, and as what. -/
@[inline] def findFrom {β : Type} (f : Buffer → Nat → Option β) (buf : Buffer) (i : Nat) :
    Option (Nat × β) :=
  findAmong (f buf) (buf.size - i) i

theorem findAmong_spec {β : Type} {f : Nat → Option β} {count i j : Nat} {x : β}
    (h : findAmong f count i = some (j, x)) : i ≤ j ∧ j < i + count ∧ f j = some x := by
  induction count generalizing i with
  | zero => simp [findAmong] at h
  | succ count ih =>
    unfold findAmong at h
    split at h
    · next y hy =>
      simp only [Option.some.injEq, Prod.mk.injEq] at h
      obtain ⟨rfl, rfl⟩ := h
      exact ⟨Nat.le_refl _, by omega, hy⟩
    · have := ih h
      exact ⟨by omega, by omega, this.2.2⟩

/-- What is found lies at or after the start, inside the buffer, and is recognised. -/
theorem findFrom_spec {β : Type} {f : Buffer → Nat → Option β} {buf : Buffer} {i j : Nat} {x : β}
    (h : findFrom f buf i = some (j, x)) : i ≤ j ∧ j < buf.size ∧ f buf j = some x := by
  have := findAmong_spec h
  exact ⟨this.1, by omega, this.2.2⟩

/-- Whether bytes stand in a buffer from a position on. -/
def standsAt (buf : Buffer) (i : Nat) : List UInt8 → Bool
  | [] => true
  | b :: rest => buf[i]? == some b && standsAt buf (i + 1) rest

/-- Bytes stand where the rest of the buffer starts with them. -/
theorem standsAt_iff {buf : Buffer} {i : Nat} {bytes : List UInt8} :
    standsAt buf i bytes = true ↔ bytes <+: buf.toList.drop i := by
  induction bytes generalizing i with
  | nil => simp [standsAt]
  | cons b rest ih =>
    simp only [standsAt, Bool.and_eq_true, beq_iff_eq, ih]
    by_cases hi : i < buf.size
    · have hdrop := List.drop_eq_getElem_cons (l := buf.toList) (i := i) (by simpa using hi)
      rw [hdrop, List.cons_prefix_cons, Array.getElem?_eq_getElem hi, Array.getElem_toList]
      simp only [Option.some.injEq, eq_comm]
    · have hle : buf.size ≤ i := Nat.le_of_not_lt hi
      simp [List.drop_eq_nil_of_le, hle]

/-- Bytes that stand somewhere lie in the buffer as a whole. -/
theorem le_size_of_standsAt {buf : Buffer} {i : Nat} {bytes : List UInt8} (hi : i < buf.size)
    (h : standsAt buf i bytes = true) : i + bytes.length ≤ buf.size := by
  have := (standsAt_iff.1 h).length_le
  simp only [List.length_drop, Array.length_toList] at this
  omega

/-! ### Line endings -/

/-- The bytes of the end of a line. -/
def lineEndBytes : List UInt8 := [13, 10]

/-- The length of the end of a line. -/
def lineEndLength : Nat := lineEndBytes.length

/-- Recognises the end of a line at a position. -/
def lineEndAt? (buf : Buffer) (i : Nat) : Option Unit :=
  if standsAt buf i lineEndBytes then some () else none

/-- The two forms of the blank line that ends a head, with the ending of the line before it. -/
inductive BlankLine where
  | crlf
  | lf
  deriving DecidableEq, Repr

/-- The bytes of a blank line. -/
def BlankLine.bytes : BlankLine → List UInt8
  | .crlf => [13, 10, 13, 10]
  | .lf => [10, 10]

/-- The length of a blank line. -/
def BlankLine.length (b : BlankLine) : Nat := b.bytes.length

/-- The blank line at a position. -/
def blankLineAt? (buf : Buffer) (i : Nat) : Option BlankLine :=
  if standsAt buf i BlankLine.crlf.bytes then some .crlf
  else if standsAt buf i BlankLine.lf.bytes then some .lf
  else none

theorem BlankLine.length_pos (b : BlankLine) : 0 < b.length := by cases b <;> decide

theorem standsAt_of_blankLineAt? {buf : Buffer} {i : Nat} {b : BlankLine}
    (h : blankLineAt? buf i = some b) : standsAt buf i b.bytes = true := by
  unfold blankLineAt? at h
  split at h
  · next hs => simp only [Option.some.injEq] at h; exact h ▸ hs
  · split at h
    · next hs => simp only [Option.some.injEq] at h; exact h ▸ hs
    · simp at h

/-- A line ending that is found lies in the buffer as a whole. -/
theorem findFrom_lineEndAt? {buf : Buffer} {start i : Nat}
    (h : findFrom lineEndAt? buf start = some (i, ())) :
    start ≤ i ∧ i + lineEndLength ≤ buf.size := by
  obtain ⟨hstart, hsize, hat⟩ := findFrom_spec h
  unfold lineEndAt? at hat
  split at hat
  · next hs => exact ⟨hstart, le_size_of_standsAt hsize hs⟩
  · simp at hat

/-- A blank line that is found lies in the buffer as a whole. -/
theorem findFrom_blankLineAt? {buf : Buffer} {start i : Nat} {b : BlankLine}
    (h : findFrom blankLineAt? buf start = some (i, b)) :
    start ≤ i ∧ i + b.length ≤ buf.size := by
  obtain ⟨hstart, hsize, hat⟩ := findFrom_spec h
  exact ⟨hstart, le_size_of_standsAt hsize (standsAt_of_blankLineAt? hat)⟩

end HttpEngine
