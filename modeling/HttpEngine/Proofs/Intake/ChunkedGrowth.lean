import HttpEngine.Proofs.Intake.Search
/-!
# Chunked bodies in a growing buffer

What reading a chunked body makes of a buffer and of a longer one that starts with it
(`Chunked.resume_of_grows`). Either the shorter buffer settles the matter, and the longer one gives
the very same outcome; or reading waits. A body that waits resumes on the longer buffer as if it
had been read there from the start, and if it ends at all, it ends beyond the shorter buffer.

The three facts go together, for they are one case analysis of a single step
(`Chunked.step_of_grows`) carried through the loop. `readData` and `afterLine` are the parts of a
step with the slices taken, which always exist.
-/

namespace HttpEngine

namespace Chunked

variable {c w : Chunked} {b d : Buffer} {lineEnd size : Nat}

/-! ### A step, with its slices taken -/

/-- The outcome of reading the data of a chunk whose size line ends at `lineEnd`. -/
def readData (c : Chunked) (buf : Buffer) (lineEnd size : Nat) : Except ChunkError Step :=
  if Text.wordSize ≤ dataStop lineEnd size then .error (.sizeOverflow size)
  else if buf.size < dataStop lineEnd size + lineEndLength then
    .ok (.rest (.waiting { c with searched := lineEnd }))
  else if bytesBetween buf (dataStop lineEnd size) (dataStop lineEnd size + lineEndLength) ≠
      lineEndBytes then
    .error .unterminated
  else
    .ok (.next { c.continueAt (dataStop lineEnd size + lineEndLength) with
      chunks := bytesBetween buf (lineEnd + lineEndLength) (dataStop lineEnd size) :: c.chunks })

/-- The outcome of reading a line that ends at `lineEnd`, with its data if it opens a chunk. -/
def afterLine (c : Chunked) (buf : Buffer) (lineEnd : Nat) : Except ChunkError Step :=
  if c.trailing then
    if lineEnd = c.position then .ok (.rest (.finished c.data (lineEnd + lineEndLength)))
    else .ok (.next (c.continueAt (lineEnd + lineEndLength)))
  else
    match sizeOfLine (bytesBetween buf c.position lineEnd) with
    | .error e => .error e
    | .ok 0 => .ok (.next { c.continueAt (lineEnd + lineEndLength) with trailing := true })
    | .ok size => c.readData buf lineEnd size

theorem readData?_eq (c : Chunked) (buf : Buffer) (lineEnd size : Nat) :
    c.readData? buf lineEnd size = some (c.readData buf lineEnd size) := by
  have hstart : lineEnd + lineEndLength ≤ dataStop lineEnd size := Nat.le_add_right _ _
  rw [readData?, readData]
  split_ifs with hword hsize hmark
  · rfl
  · rfl
  · rw [slice?_eq_some (Nat.le_add_right _ _) (by omega), Option.bind_some]
    exact if_pos hmark
  · rw [slice?_eq_some (Nat.le_add_right _ _) (by omega), slice?_eq_some hstart (by omega),
      Option.bind_some, Option.map_some]
    exact if_neg hmark

/-- A step finds the end of the next line and reads that line, or waits for it. -/
theorem step_eq (c : Chunked) (buf : Buffer) :
    c.step buf =
      match findFrom lineEndAt? buf (max c.position (c.searched - 1)) with
      | none => .ok (.rest (.waiting { c with searched := buf.size }))
      | some (lineEnd, _) => c.afterLine buf lineEnd := by
  have hs := c.step?_eq buf
  rw [step?] at hs
  cases hfind : findFrom lineEndAt? buf (max c.position (c.searched - 1)) with
  | none =>
    rw [hfind] at hs
    exact (Option.some_inj.1 hs).symm
  | some found =>
    obtain ⟨lineEnd, ⟨⟩⟩ := found
    have hline := findFrom_lineEndAt? hfind
    simp only [hfind] at hs
    refine Option.some_inj.1 (hs.symm.trans ?_)
    change _ = some (c.afterLine buf lineEnd)
    rw [afterLine]
    split_ifs
    · rfl
    · rfl
    · rw [slice?_eq_some (by omega) (by omega), Option.bind_some, ← bytesBetween]
      cases sizeOfLine (bytesBetween buf c.position lineEnd) with
      | error e => rfl
      | ok size =>
        cases size with
        | zero => rfl
        | succ n => exact c.readData?_eq buf lineEnd (n + 1)

theorem step_of_find_none (hc : c.searched = c.position)
    (h : findFrom lineEndAt? b c.position = none) :
    c.step b = .ok (.rest (.waiting { c with searched := b.size })) := by
  rw [step_eq, hc, show max c.position (c.position - 1) = c.position by omega, h]

theorem step_of_find_some (hc : c.searched = c.position)
    (h : findFrom lineEndAt? b c.position = some (lineEnd, ())) :
    c.step b = c.afterLine b lineEnd := by
  rw [step_eq, hc, show max c.position (c.position - 1) = c.position by omega, h]

/-- How far a line has been searched does not matter once its end is known. -/
theorem afterLine_searched (c : Chunked) (buf : Buffer) (lineEnd searched : Nat) :
    ({ c with searched := searched } : Chunked).afterLine buf lineEnd =
      c.afterLine buf lineEnd := rfl

/-- A body that has been searched in vain up to a position goes on as if it had not been. -/
theorem step_searched {searched : Nat} (hc : c.searched = c.position)
    (h : findFrom lineEndAt? b (max c.position (searched - 1)) =
      findFrom lineEndAt? b c.position) :
    ({ c with searched := searched } : Chunked).step b = c.step b := by
  rw [step_eq, step_eq c, hc, show max c.position (c.position - 1) = c.position by omega]
  simp only [h, afterLine_searched]

/-! ### A step in a growing buffer -/

/-- The outcome of a step reads bytes **beyond** a size, if it reads a line at all. -/
def Beyond (size : Nat) : Except ChunkError Step → Prop
  | .ok (.next c) => size < c.position
  | .ok (.rest (.finished _ stop)) => size < stop
  | _ => True

/-- The outcome of reading the rest of a body reads bytes **beyond** a size, if the body ends. -/
def EndsBeyond (size : Nat) : Except ChunkError Progress → Prop
  | .ok (.finished _ stop) => size < stop
  | _ => True

theorem readData_of_grows (c : Chunked) (hbd : b.toList <+: d.toList) (lineEnd size : Nat) :
    (c.readData b lineEnd size = .ok (.rest (.waiting { c with searched := lineEnd })) ∧
        Beyond b.size (c.readData d lineEnd size)) ∨
      (c.readData d lineEnd size = c.readData b lineEnd size ∧
        ∀ w, c.readData b lineEnd size ≠ .ok (.rest (.waiting w))) := by
  have hle := size_le_of_grows hbd
  rw [readData, readData]
  by_cases hword : Text.wordSize ≤ dataStop lineEnd size
  · refine .inr ⟨by rw [if_pos hword, if_pos hword], fun w => ?_⟩
    rw [if_pos hword]
    simp
  · rw [if_neg hword, if_neg hword]
    by_cases hsize : b.size < dataStop lineEnd size + lineEndLength
    · -- the data is cut, so whatever comes of it lies beyond the shorter buffer
      refine .inl ⟨if_pos hsize, ?_⟩
      split_ifs
      · trivial
      · trivial
      · exact hsize
    · have hsize' : ¬ d.size < dataStop lineEnd size + lineEndLength := by omega
      have hmark := bytesBetween_of_grows (i := dataStop lineEnd size) hbd (Nat.le_of_not_lt hsize)
      have hdata := bytesBetween_of_grows (i := lineEnd + lineEndLength)
        (j := dataStop lineEnd size) hbd (by omega)
      rw [if_neg hsize, if_neg hsize', hmark, hdata]
      refine .inr ⟨rfl, fun w => ?_⟩
      split_ifs <;> simp

theorem afterLine_of_grows (c : Chunked) (hbd : b.toList <+: d.toList)
    (hline : lineEnd + lineEndLength ≤ b.size) :
    (c.afterLine b lineEnd = .ok (.rest (.waiting { c with searched := lineEnd })) ∧
        Beyond b.size (c.afterLine d lineEnd)) ∨
      (c.afterLine d lineEnd = c.afterLine b lineEnd ∧
        ∀ w, c.afterLine b lineEnd ≠ .ok (.rest (.waiting w))) := by
  rw [afterLine, afterLine, bytesBetween_of_grows hbd (by omega)]
  by_cases htrailing : c.trailing = true
  · rw [if_pos htrailing, if_pos htrailing]
    refine .inr ⟨rfl, fun w => ?_⟩
    split <;> simp
  · rw [if_neg htrailing, if_neg htrailing]
    cases sizeOfLine (bytesBetween b c.position lineEnd) with
    | error e => exact .inr ⟨rfl, by simp⟩
    | ok size =>
      cases size with
      | zero => exact .inr ⟨rfl, by simp⟩
      | succ n => exact readData_of_grows c hbd lineEnd (n + 1)

theorem beyond_readData (c : Chunked) (b : Buffer) {bound : Nat}
    (h : bound < lineEnd + lineEndLength) : Beyond bound (c.readData b lineEnd size) := by
  rw [readData]
  split_ifs
  · trivial
  · trivial
  · trivial
  · change bound < dataStop lineEnd size + lineEndLength
    have hstart : lineEnd + lineEndLength ≤ dataStop lineEnd size := Nat.le_add_right _ _
    omega

/-- A step is beyond whatever the end of its line is beyond. -/
theorem beyond_afterLine (c : Chunked) (b : Buffer) {bound : Nat}
    (h : bound < lineEnd + lineEndLength) : Beyond bound (c.afterLine b lineEnd) := by
  rw [afterLine]
  split_ifs
  · exact h
  · exact h
  · cases sizeOfLine (bytesBetween b c.position lineEnd) with
    | error e => trivial
    | ok size =>
      cases size with
      | zero => exact h
      | succ n => exact beyond_readData c b h

/-- **A step in a growing buffer.** From the start of a line, a step that waits in the shorter
buffer resumes in the longer one as if it started there, beyond the shorter; any other step is the
same in both. -/
theorem step_of_grows (hbd : b.toList <+: d.toList) (hc : c.searched = c.position) :
    (∃ w, c.step b = .ok (.rest (.waiting w)) ∧ w.step d = c.step d ∧
        Beyond b.size (c.step d)) ∨
      (c.step d = c.step b ∧ ∀ w, c.step b ≠ .ok (.rest (.waiting w))) := by
  cases hfind : findFrom lineEndAt? b c.position with
  | some found =>
    obtain ⟨lineEnd, ⟨⟩⟩ := found
    have hline := findFrom_lineEndAt? hfind
    have hfind' := steady_lineEndAt?.find_of_grows hbd hfind
    rw [step_of_find_some hc hfind, step_of_find_some hc hfind']
    rcases afterLine_of_grows c hbd hline.2 with ⟨hwait, hbeyond⟩ | hsame
    · refine .inl ⟨_, hwait, ?_, hbeyond⟩
      -- the size line is searched again from just before its end
      have hskip : findFrom lineEndAt? d (max c.position (lineEnd - 1)) =
          findFrom lineEndAt? d c.position :=
        findFrom_eq_of_skip (Nat.le_max_left _ _) fun k hk hk' =>
          (findFrom_eq_some_iff.1 hfind').2.2.2 k hk (by omega)
      rw [step_searched hc hskip, step_of_find_some hc hfind']
    · exact .inr hsame
  | none =>
    -- the end of a line may straddle the end of the shorter buffer, by one byte
    have hskip : findFrom lineEndAt? d (max c.position (b.size - 1)) =
        findFrom lineEndAt? d c.position :=
      steady_lineEndAt?.find_resume hbd hfind (Nat.le_max_left _ _) (by omega) (by omega)
    refine .inl ⟨_, step_of_find_none hc hfind, step_searched hc hskip, ?_⟩
    cases hfind' : findFrom lineEndAt? d c.position with
    | none =>
      rw [step_of_find_none hc hfind']
      trivial
    | some found =>
      obtain ⟨lineEnd, ⟨⟩⟩ := found
      rw [step_of_find_some hc hfind']
      -- a line that ended within the shorter buffer would have been found there
      refine beyond_afterLine c d (Nat.lt_of_not_le fun hle => ?_)
      rw [steady_lineEndAt?.find_of_extent hbd hfind' hle] at hfind
      exact absurd hfind (by simp)

/-- A chunk is read on when its data and the line ending behind them are there. -/
theorem readData_eq_next_iff :
    c.readData b lineEnd size = .ok (.next w) ↔
      dataStop lineEnd size < Text.wordSize ∧ dataStop lineEnd size + lineEndLength ≤ b.size ∧
        bytesBetween b (dataStop lineEnd size) (dataStop lineEnd size + lineEndLength) =
          lineEndBytes ∧
        w = { c.continueAt (dataStop lineEnd size + lineEndLength) with
          chunks := bytesBetween b (lineEnd + lineEndLength) (dataStop lineEnd size) ::
            c.chunks } := by
  rw [readData]
  split_ifs with hword hsize hmark
  · exact iff_of_false (by simp) fun h => Nat.not_lt.2 hword h.1
  · exact iff_of_false (by simp) fun h => Nat.not_le.2 hsize h.2.1
  · exact iff_of_false (by simp) fun h => hmark h.2.2.1
  · rw [Except.ok.injEq, Step.next.injEq, eq_comm]
    exact ⟨fun h => ⟨by omega, by omega, not_not.1 hmark, h⟩, fun h => h.2.2.2⟩

/-- A line is read on when it is a trailer, the last size line, or opens a chunk that is read. -/
theorem of_afterLine_eq_next (h : c.afterLine b lineEnd = .ok (.next w)) :
    (c.trailing = true ∧ lineEnd ≠ c.position ∧ w = c.continueAt (lineEnd + lineEndLength)) ∨
      (c.trailing = false ∧ sizeOfLine (bytesBetween b c.position lineEnd) = .ok 0 ∧
        w = { c.continueAt (lineEnd + lineEndLength) with trailing := true }) ∨
      (c.trailing = false ∧ ∃ n, sizeOfLine (bytesBetween b c.position lineEnd) = .ok (n + 1) ∧
        c.readData b lineEnd (n + 1) = .ok (.next w)) := by
  rw [afterLine] at h
  by_cases htrailing : c.trailing = true
  · rw [if_pos htrailing] at h
    by_cases hempty : lineEnd = c.position
    · rw [if_pos hempty] at h
      simp at h
    · rw [if_neg hempty, Except.ok.injEq, Step.next.injEq] at h
      exact .inl ⟨htrailing, hempty, h.symm⟩
  · rw [if_neg htrailing] at h
    have hfalse : c.trailing = false := by simpa using htrailing
    cases hsize : sizeOfLine (bytesBetween b c.position lineEnd) with
    | error e =>
      rw [hsize] at h
      simp at h
    | ok size =>
      rw [hsize] at h
      cases size with
      | zero =>
        simp only [Except.ok.injEq, Step.next.injEq] at h
        exact .inr (.inl ⟨hfalse, rfl, h.symm⟩)
      | succ n => exact .inr (.inr ⟨hfalse, n, rfl, h⟩)

/-- A step that reads a line stops at the start of the next one. -/
theorem searched_of_step (hc : c.searched = c.position) (h : c.step b = .ok (.next w)) :
    w.searched = w.position := by
  cases hfind : findFrom lineEndAt? b c.position with
  | none =>
    rw [step_of_find_none hc hfind] at h
    simp at h
  | some found =>
    obtain ⟨lineEnd, ⟨⟩⟩ := found
    rw [step_of_find_some hc hfind] at h
    rcases of_afterLine_eq_next h with ⟨-, -, rfl⟩ | ⟨-, -, rfl⟩ | ⟨-, n, -, hread⟩
    · rfl
    · rfl
    · obtain ⟨-, -, -, rfl⟩ := readData_eq_next_iff.1 hread
      rfl

/-! ### The rest of a body in a growing buffer -/

theorem resume_of_error {e : ChunkError} (h : c.step b = .error e) : c.resume b = .error e := by
  rw [resume]
  split
  · next h' => exact congrArg _ (Except.error.inj (h'.symm.trans h))
  · next h' => exact absurd (h'.symm.trans h) (by simp)
  · next h' => exact absurd (h'.symm.trans h) (by simp)

theorem resume_of_rest {p : Progress} (h : c.step b = .ok (.rest p)) : c.resume b = .ok p := by
  rw [resume]
  split
  · next h' => exact absurd (h'.symm.trans h) (by simp)
  · next h' => simpa using h'.symm.trans h
  · next h' => exact absurd (h'.symm.trans h) (by simp)

theorem resume_of_next (h : c.step b = .ok (.next w)) : c.resume b = w.resume b := by
  rw [resume]
  split
  · next h' => exact absurd (h'.symm.trans h) (by simp)
  · next h' => exact absurd (h'.symm.trans h) (by simp)
  · next h' => rw [Step.next.inj (Except.ok.inj (h'.symm.trans h))]

/-- What reading a body makes of a buffer depends on the first step only. -/
theorem resume_congr (h : w.step d = c.step d) : w.resume d = c.resume d := by
  cases hs : c.step d with
  | error e => rw [resume_of_error hs, resume_of_error (h.trans hs)]
  | ok s =>
    cases s with
    | rest p => rw [resume_of_rest hs, resume_of_rest (h.trans hs)]
    | next c' => rw [resume_of_next hs, resume_of_next (h.trans hs)]

/-- A body that is read to its end ends behind the line it is read from. -/
theorem position_lt_of_resume {data : List UInt8} {stop : Nat}
    (h : c.resume b = .ok (.finished data stop)) : c.position < stop := by
  fun_induction resume c b with
  | case1 => simp at h
  | case2 c p hstep =>
    rw [Except.ok.injEq] at h
    rw [h, step_eq] at hstep
    cases hfind : findFrom lineEndAt? b (max c.position (c.searched - 1)) with
    | none => simp [hfind] at hstep
    | some found =>
      obtain ⟨lineEnd, ⟨⟩⟩ := found
      have hline := findFrom_lineEndAt? hfind
      have htwo : lineEndLength = 2 := rfl
      have hbefore : c.position < lineEnd + lineEndLength := by omega
      have hbeyond := beyond_afterLine c b hbefore
      simp only [hfind] at hstep
      rwa [hstep] at hbeyond
  | case3 c w hstep ih => exact (lt_position_of_step hstep).1.trans (ih h)

/-- A body ends beyond whatever the line it is read from is beyond. -/
theorem endsBeyond_resume {bound : Nat} (h : bound ≤ c.position) :
    EndsBeyond bound (c.resume b) := by
  cases hres : c.resume b with
  | error e => trivial
  | ok p =>
    cases p with
    | waiting w => trivial
    | finished data stop => exact Nat.lt_of_le_of_lt h (position_lt_of_resume hres)

/-- A body ends beyond whatever its first step is beyond. -/
theorem endsBeyond_resume_of_step {bound : Nat} (h : Beyond bound (c.step b)) :
    EndsBeyond bound (c.resume b) := by
  cases hstep : c.step b with
  | error e =>
    rw [resume_of_error hstep]
    trivial
  | ok s =>
    rw [hstep] at h
    cases s with
    | rest p =>
      rw [resume_of_rest hstep]
      cases p with
      | waiting w => trivial
      | finished data stop => exact h
    | next w =>
      rw [resume_of_next hstep]
      exact endsBeyond_resume (Nat.le_of_lt h)

/-- **The rest of a body in a growing buffer.** From the start of a line, reading that waits in the
shorter buffer resumes in the longer one as if it started there, and ends beyond the shorter if it
ends; any other outcome is the same in both. -/
theorem resume_of_grows (hbd : b.toList <+: d.toList) (hc : c.searched = c.position) :
    (∃ w, c.resume b = .ok (.waiting w) ∧ w.resume d = c.resume d ∧
        EndsBeyond b.size (c.resume d)) ∨
      (c.resume d = c.resume b ∧ ∀ w, c.resume b ≠ .ok (.waiting w)) := by
  -- along the steps in the shorter buffer: all but the last are the same in the longer one
  fun_induction resume c b with
  | case1 c e hstep =>
    rcases step_of_grows hbd hc with ⟨w, hwait, -⟩ | ⟨hsame, -⟩
    · exact absurd (hstep.symm.trans hwait) (by simp)
    · exact .inr ⟨resume_of_error (hsame.trans hstep), by simp⟩
  | case2 c p hstep =>
    rcases step_of_grows hbd hc with ⟨w, hwait, hresume, hbeyond⟩ | ⟨hsame, hne⟩
    · obtain rfl : p = .waiting w := by simpa using hstep.symm.trans hwait
      exact .inl ⟨w, rfl, resume_congr hresume, endsBeyond_resume_of_step hbeyond⟩
    · refine .inr ⟨resume_of_rest (hsame.trans hstep), fun w hw => hne w ?_⟩
      rw [hstep, Except.ok.inj hw]
  | case3 c w hstep ih =>
    rcases step_of_grows hbd hc with ⟨v, hwait, -⟩ | ⟨hsame, -⟩
    · exact absurd (hstep.symm.trans hwait) (by simp)
    · rw [resume_of_next (hsame.trans hstep)]
      exact ih (searched_of_step hc hstep)

end Chunked

end HttpEngine
