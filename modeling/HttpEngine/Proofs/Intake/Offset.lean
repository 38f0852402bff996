import HttpEngine.Proofs.Intake.ChunkedGrowth
/-!
# Reading behind other bytes

A buffer **stands behind** `k` bytes of another one when it is what follows them there. Whatever is
searched, cut out or read of a chunked body in the one is then the same in the other, with every
position moved by `k` (`StandsBehind.find_eq`, `StandsBehind.bytesBetween_eq`,
`Chunked.resume_shift`).

There is one exception. A chunk size is refused as too large when the end of its data is no word,
and that end is counted from the start of the buffer. So behind other bytes a size may be refused
whose data the buffer by itself would wait for; never one whose data are there, for the size of a
buffer is a word.
-/

namespace HttpEngine

open Text

variable {β : Type} {b d : Buffer} {k : Nat}

/-- That a buffer is what follows the first `k` bytes of another one. -/
structure StandsBehind (b : Buffer) (k : Nat) (d : Buffer) : Prop where
  drop_eq : d.toList.drop k = b.toList
  le_size : k ≤ d.size

/-! ### Positions -/

/-- What follows bytes stands behind them. -/
theorem standsBehind_append (front bytes : List UInt8) :
    StandsBehind bytes.toArray front.length (front ++ bytes).toArray where
  drop_eq := List.drop_left
  le_size := by simp

theorem standsBehind_extract (h : k ≤ d.size) : StandsBehind (d.extract k) k d where
  drop_eq := (toList_extract d k).symm
  le_size := h

namespace StandsBehind

variable (h : StandsBehind b k d)
include h

theorem size_eq : d.size = k + b.size := by
  have hlen := congrArg List.length h.drop_eq
  have hle := h.le_size
  rw [List.length_drop, Array.length_toList, Array.length_toList] at hlen
  omega

theorem drop_add (i : Nat) : d.toList.drop (k + i) = b.toList.drop i := by
  rw [← List.drop_drop, h.drop_eq]

theorem getElem?_eq (i : Nat) : d[k + i]? = b[i]? := by
  rw [← Array.getElem?_toList, ← Array.getElem?_toList, ← h.drop_eq, List.getElem?_drop]

theorem standsAt_eq (i : Nat) (bytes : List UInt8) :
    standsAt d (k + i) bytes = standsAt b i bytes := by
  rw [Bool.eq_iff_iff, standsAt_iff, standsAt_iff, h.drop_add]

theorem lineEndAt?_eq (i : Nat) : lineEndAt? d (k + i) = lineEndAt? b i := by
  rw [lineEndAt?, lineEndAt?, h.standsAt_eq]

theorem blankLineAt?_eq (i : Nat) : blankLineAt? d (k + i) = blankLineAt? b i := by
  rw [blankLineAt?, blankLineAt?, h.standsAt_eq, h.standsAt_eq]

theorem properAt?_eq (i : Nat) : Decoder.properAt? d (k + i) = Decoder.properAt? b i := by
  rw [Decoder.properAt?, Decoder.properAt?, h.getElem?_eq]

theorem bytesBetween_eq (i j : Nat) : bytesBetween d (k + i) (k + j) = bytesBetween b i j := by
  rw [bytesBetween, bytesBetween, h.drop_add, Nat.add_sub_add_left]

/-- **A search behind other bytes** finds the same thing, as far behind them. -/
theorem find_eq {f : Buffer → Nat → Option β} (hf : ∀ i, f d (k + i) = f b i) (i : Nat) :
    findFrom f d (k + i) = (findFrom f b i).map fun found => (k + found.1, found.2) := by
  have hsize := h.size_eq
  cases hfind : findFrom f b i with
  | none =>
    refine findFrom_eq_none_iff.2 fun j hij hj => ?_
    obtain ⟨j, rfl⟩ := Nat.exists_eq_add_of_le (Nat.le_of_add_right_le hij)
    rw [hf]
    exact findFrom_eq_none_iff.1 hfind j (by omega) (by omega)
  | some found =>
    obtain ⟨j, x⟩ := found
    obtain ⟨hij, hj, hx, hbefore⟩ := findFrom_eq_some_iff.1 hfind
    refine findFrom_eq_some_iff.2 ⟨by omega, by omega, (hf j).trans hx, fun m him hmj => ?_⟩
    obtain ⟨m, rfl⟩ := Nat.exists_eq_add_of_le (Nat.le_of_add_right_le him)
    rw [hf]
    exact hbefore m (by omega) (by omega)

end StandsBehind

/-! ### Chunked bodies -/

namespace Chunked

variable {c w : Chunked}

/-- The progress of a body that starts `k` positions later. -/
def shift (k : Nat) (c : Chunked) : Chunked :=
  { c with position := k + c.position, searched := k + c.searched }

/-- The outcome of reading the rest of a body that starts `k` positions later. -/
def Progress.shift (k : Nat) : Progress → Progress
  | .waiting c => .waiting (c.shift k)
  | .finished data stop => .finished data (k + stop)

/-- The outcome of reading a line of a body that starts `k` positions later. -/
def Step.shift (k : Nat) : Step → Step
  | .next c => .next (c.shift k)
  | .rest p => .rest (p.shift k)

theorem start_add (k position : Nat) : start (k + position) = (start position).shift k := rfl

/-- Reading a chunk's data behind other bytes. Only an overflow depends on where the data ends. -/
theorem readData_shift (h : StandsBehind b k d) (hword : d.size < wordSize) (c : Chunked)
    (lineEnd size : Nat) :
    (c.shift k).readData d (k + lineEnd) size = (c.readData b lineEnd size).map (Step.shift k) ∨
      (c.readData b lineEnd size = .ok (.rest (.waiting { c with searched := lineEnd })) ∧
        (c.shift k).readData d (k + lineEnd) size = .error (.sizeOverflow size)) := by
  have hsize := h.size_eq
  have hstop : dataStop (k + lineEnd) size = k + dataStop lineEnd size := by
    simp only [dataStop]
    omega
  simp only [readData, hstop, Nat.add_assoc k, h.bytesBetween_eq]
  by_cases hlate : wordSize ≤ k + dataStop lineEnd size
  · rw [if_pos hlate]
    by_cases hover : wordSize ≤ dataStop lineEnd size
    · exact .inl (by rw [if_pos hover]; rfl)
    · -- data that end beyond every word are not in the buffer
      refine .inr ⟨?_, rfl⟩
      rw [if_neg hover, if_pos (by omega)]
  · rw [if_neg hlate, if_neg (by omega : ¬ wordSize ≤ dataStop lineEnd size)]
    left
    by_cases hcut : b.size < dataStop lineEnd size + lineEndLength
    · rw [if_pos hcut, if_pos (by omega)]
      rfl
    · rw [if_neg hcut, if_neg (by omega)]
      split_ifs
      · rfl
      · rfl

theorem afterLine_shift (h : StandsBehind b k d) (hword : d.size < wordSize) (c : Chunked)
    (lineEnd : Nat) :
    (c.shift k).afterLine d (k + lineEnd) = (c.afterLine b lineEnd).map (Step.shift k) ∨
      ∃ w size, c.afterLine b lineEnd = .ok (.rest (.waiting w)) ∧
        (c.shift k).afterLine d (k + lineEnd) = .error (.sizeOverflow size) := by
  have hposition : (c.shift k).position = k + c.position := rfl
  have htrailing : (c.shift k).trailing = c.trailing := rfl
  simp only [afterLine, hposition, htrailing, h.bytesBetween_eq, Nat.add_left_cancel_iff]
  split_ifs
  · exact .inl rfl
  · exact .inl rfl
  · cases sizeOfLine (bytesBetween b c.position lineEnd) with
    | error e => exact .inl rfl
    | ok size =>
      cases size with
      | zero => exact .inl rfl
      | succ n =>
        rcases readData_shift h hword c lineEnd (n + 1) with hsame | ⟨hwait, hover⟩
        · exact .inl hsame
        · exact .inr ⟨_, _, hwait, hover⟩

/-- **A step behind other bytes** is the same step, or refuses a size whose data are not there. -/
theorem step_shift (h : StandsBehind b k d) (hword : d.size < wordSize) (c : Chunked) :
    (c.shift k).step d = (c.step b).map (Step.shift k) ∨
      ∃ w size, c.step b = .ok (.rest (.waiting w)) ∧
        (c.shift k).step d = .error (.sizeOverflow size) := by
  have hfrom : max (c.shift k).position ((c.shift k).searched - 1) =
      k + max c.position (c.searched - 1) := by
    simp only [shift]
    omega
  rw [step_eq, step_eq, hfrom, h.find_eq h.lineEndAt?_eq]
  cases findFrom lineEndAt? b (max c.position (c.searched - 1)) with
  | none =>
    refine .inl ?_
    simp only [Option.map_none, shift, h.size_eq]
    rfl
  | some found => exact afterLine_shift h hword c found.1

/-- **A body behind other bytes** is read as it is by itself, moved; but where the body by itself
waits, its size may be refused. -/
theorem resume_shift (h : StandsBehind b k d) (hword : d.size < wordSize) (c : Chunked) :
    (c.shift k).resume d = (c.resume b).map (Progress.shift k) ∨
      ∃ w size, c.resume b = .ok (.waiting w) ∧
        (c.shift k).resume d = .error (.sizeOverflow size) := by
  -- along the steps in the buffer by itself: all but the last are made behind the bytes, too
  fun_induction resume c b with
  | case1 c e hstep =>
    rcases step_shift h hword c with hsame | ⟨w, size, hwait, -⟩
    · rw [hstep] at hsame
      exact .inl (resume_of_error hsame)
    · exact absurd (hstep.symm.trans hwait) (by simp)
  | case2 c p hstep =>
    rcases step_shift h hword c with hsame | ⟨w, size, hwait, hover⟩
    · rw [hstep] at hsame
      exact .inl (resume_of_rest hsame)
    · obtain rfl : p = .waiting w := by simpa using hstep.symm.trans hwait
      exact .inr ⟨w, size, rfl, resume_of_error hover⟩
  | case3 c w hstep ih =>
    rcases step_shift h hword c with hsame | ⟨v, size, hwait, -⟩
    · rw [hstep] at hsame
      rw [resume_of_next hsame]
      exact ih
    · exact absurd (hstep.symm.trans hwait) (by simp)

end Chunked

end HttpEngine
