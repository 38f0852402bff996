import HttpEngine.Proofs.Intake.ChunkedGrowth
/-!
# The grammar of chunked bodies

A **chunking** is a body as it is written in chunks: size lines with their data, a last size line of
zero, trailer lines, and an empty line. Every line is ended by CR LF and holds none inside; a chunk
has data, and exactly as much as the numeral on its size line says; a trailer line is not empty.
Whatever follows a semicolon on a size line belongs to no numeral.

Reading a chunked body accepts exactly the chunkings: it ends at a position with some data just
when the bytes up to there are those of a chunking of the data
(`Chunking.resume_start_eq_finished_iff`). As reading is a function, a buffer holds at most one
chunking from a position on, as far as its end and its data go.

Data may hold line endings, for they are counted and not searched. A line is found by its ending,
and that the first one ends it is `findFrom_lineEndAt?_eq_some_iff`. Soundness follows the loop of
the reader, completeness the chunks and trailer lines that were written.
-/

namespace HttpEngine

open Text

variable {buf : Buffer} {p stop lineEnd : Nat} {bs line rest : List UInt8}

/-! ### Bytes between positions -/

/-- That bytes **stand between** two positions: they start at the first and end at the second. -/
structure StandsBetween (buf : Buffer) (p stop : Nat) (bs : List UInt8) : Prop where
  starts : bs <+: buf.toList.drop p
  stops : stop = p + bs.length

/-- Bytes stand between positions when they are the slice between them. -/
theorem slice?_eq_some_iff (hne : bs ≠ []) :
    slice? buf p stop = some bs ↔ StandsBetween buf p stop bs := by
  constructor
  · intro h
    have hslice : p ≤ stop ∧ stop ≤ buf.size := by
      by_contra hout
      rw [slice?, if_neg hout] at h
      simp at h
    rw [slice?_eq_some hslice.1 hslice.2, Option.some.injEq] at h
    subst h
    refine ⟨List.take_prefix _ _, ?_⟩
    simp only [List.length_take, List.length_drop, Array.length_toList]
    omega
  · rintro ⟨hstarts, rfl⟩
    rw [slice?_eq_some (Nat.le_add_right _ _) (add_length_le_size hstarts hne),
      Nat.add_sub_cancel_left, ← List.prefix_iff_eq_take.1 hstarts]

/-- Bytes stand between positions in parts. -/
theorem standsBetween_append_iff :
    StandsBetween buf p stop (bs ++ rest) ↔
      bs <+: buf.toList.drop p ∧ StandsBetween buf (p + bs.length) stop rest := by
  constructor
  · rintro ⟨hstarts, rfl⟩
    refine ⟨(List.prefix_append bs rest).trans hstarts, prefix_drop_of_append hstarts, ?_⟩
    rw [List.length_append, Nat.add_assoc]
  · rintro ⟨hstarts, hrest, rfl⟩
    refine ⟨append_prefix_drop hstarts hrest, ?_⟩
    rw [List.length_append, Nat.add_assoc]

/-! ### Lines -/

/-- A line ending does not begin inside a line, not even if a CR is its last byte. -/
theorem not_startsLineEnd_append (hline : ¬ lineEndBytes <:+: line) (hne : line ≠ []) :
    ¬ lineEndBytes <+: line ++ lineEndBytes ++ rest := by
  intro hstarts
  rcases line with - | ⟨a, - | ⟨b, line⟩⟩
  · exact hne rfl
  · simp [lineEndBytes] at hstarts
  · refine hline (List.IsPrefix.isInfix ?_)
    simp only [lineEndBytes, List.cons_append, List.cons_prefix_cons, List.nil_prefix,
      and_true] at hstarts ⊢
    exact hstarts

/-- **A line is found by its ending.** The first line ending from a position on ends a line which
holds none inside. -/
theorem findFrom_lineEndAt?_eq_some_iff :
    findFrom lineEndAt? buf p = some (lineEnd, ()) ↔
      ∃ line, ¬ lineEndBytes <:+: line ∧ line ++ lineEndBytes <+: buf.toList.drop p ∧
        lineEnd = p + line.length := by
  constructor
  · intro h
    obtain ⟨hp, hsize, hat, hbefore⟩ := findFrom_eq_some_iff.1 h
    have hends := standsAt_iff.1 (recognisesMarks_lineEndAt?.eq_some_iff.1 hat)
    have hlen : (bytesBetween buf p lineEnd).length = lineEnd - p :=
      length_bytesBetween (Nat.le_of_lt hsize)
    have hstands : bytesBetween buf p lineEnd ++ lineEndBytes <+: buf.toList.drop p :=
      append_prefix_drop (isPrefix_bytesBetween _ _ _) (by rwa [hlen, Nat.add_sub_cancel' hp])
    refine ⟨bytesBetween buf p lineEnd, ?_, hstands, by omega⟩
    -- a line ending inside would have been found before
    rintro ⟨front, back, hinside⟩
    have hearlier : lineEndBytes <+: buf.toList.drop (p + front.length) := by
      refine prefix_drop_of_append (List.IsPrefix.trans ?_ hstands)
      rw [← hinside, List.append_assoc (front ++ lineEndBytes)]
      exact List.prefix_append _ _
    have hshort : front.length < lineEnd - p := by
      rw [← hlen, ← hinside]
      simp [lineEndBytes]
    have hnone := hbefore (p + front.length) (Nat.le_add_right _ _) (by omega)
    have hfound : lineEndAt? buf (p + front.length) = some () :=
      recognisesMarks_lineEndAt?.eq_some_iff.2 (standsAt_iff.2 hearlier)
    exact absurd (hnone.symm.trans hfound) (by simp)
  · rintro ⟨line, hline, hstands, rfl⟩
    have hlen := add_length_le_size hstands (by simp [lineEndBytes])
    have htwo : lineEndBytes.length = 2 := rfl
    rw [List.length_append] at hlen
    refine findFrom_eq_some_iff.2 ⟨Nat.le_add_right _ _, by omega,
      recognisesMarks_lineEndAt?.eq_some_iff.2 (standsAt_iff.2 (prefix_drop_of_append hstands)),
      fun k hpk hk => ?_⟩
    cases hat : lineEndAt? buf k with
    | none => rfl
    | some found =>
      have hearlier := standsAt_iff.1 (recognisesMarks_lineEndAt?.eq_some_iff.1 hat)
      obtain ⟨more, hmore⟩ := hstands
      have hdrop : buf.toList.drop k = line.drop (k - p) ++ lineEndBytes ++ more := by
        rw [← Nat.add_sub_cancel' hpk, ← List.drop_drop, ← hmore, Nat.add_sub_cancel_left,
          List.append_assoc, List.drop_append_of_le_length (by omega), ← List.append_assoc]
      rw [hdrop] at hearlier
      refine absurd hearlier (not_startsLineEnd_append ?_ ?_)
      · exact fun hinside => hline (hinside.trans (List.drop_suffix _ _).isInfix)
      · exact List.ne_nil_of_length_pos (by rw [List.length_drop]; omega)

/-! ### Chunkings -/

/-- That a size line gives a size: the numeral in base sixteen before its first semicolon. -/
structure SizeLine (line : List UInt8) (size : Nat) : Prop where
  unbroken : ¬ lineEndBytes <:+: line
  reads : ∃ text, Utf8.decode line = .ok text ∧
    readNumeral 16 (trim (text.takeWhile (· != ';'))) = some size

/-- That a line may stand among the trailers. -/
structure TrailerLine (line : List UInt8) : Prop where
  unbroken : ¬ lineEndBytes <:+: line
  ne_nil : line ≠ []

/-- A size line with its data. -/
structure Chunk where
  line : List UInt8
  data : List UInt8
  sized : SizeLine line data.length
  data_ne_nil : data ≠ []

/-- The bytes of a chunk. -/
def Chunk.bytes (c : Chunk) : List UInt8 := c.line ++ lineEndBytes ++ c.data ++ lineEndBytes

/-- The bytes of trailer lines with the empty line behind them. -/
def trailerBytes (trailers : List (List UInt8)) : List UInt8 :=
  (trailers.flatMap fun line => line ++ lineEndBytes) ++ lineEndBytes

/-- A body as it is written in chunks. -/
structure Chunking where
  chunks : List Chunk
  /-- The size line of zero. -/
  last : List UInt8
  last_sized : SizeLine last 0
  trailers : List (List UInt8)
  trailers_lines : ∀ line ∈ trailers, TrailerLine line

namespace Chunking

/-- The bytes behind the chunks. -/
def ending (t : Chunking) : List UInt8 := t.last ++ lineEndBytes ++ trailerBytes t.trailers

/-- The bytes of a chunking. -/
def bytes (t : Chunking) : List UInt8 := t.chunks.flatMap Chunk.bytes ++ t.ending

/-- The data of a chunking. -/
def data (t : Chunking) : List UInt8 := t.chunks.flatMap Chunk.data

/-- A chunking with a chunk in front. -/
def push (t : Chunking) (c : Chunk) : Chunking := { t with chunks := c :: t.chunks }

@[simp] theorem bytes_push (t : Chunking) (c : Chunk) : (t.push c).bytes = c.bytes ++ t.bytes := by
  simp [push, bytes, ending]

@[simp] theorem data_push (t : Chunking) (c : Chunk) : (t.push c).data = c.data ++ t.data := by
  simp [push, data]

theorem bytes_ne_nil (t : Chunking) : t.bytes ≠ [] := by
  simp [bytes, ending, lineEndBytes]

end Chunking

theorem trailerBytes_cons (line : List UInt8) (trailers : List (List UInt8)) :
    trailerBytes (line :: trailers) = line ++ lineEndBytes ++ trailerBytes trailers := by
  simp [trailerBytes]

/-! ### A step of the reader, by what it reads -/

namespace Chunked

variable {c w : Chunked} {data : List UInt8} {size : Nat}

/-- The state behind bytes that stand at the position. -/
def pass (c : Chunked) (bs : List UInt8) : Chunked := c.continueAt (c.position + bs.length)

/-- The state behind the last size line. -/
def passLast (c : Chunked) (line : List UInt8) : Chunked :=
  { c.pass (line ++ lineEndBytes) with trailing := true }

/-- The state behind a chunk. -/
def passChunk (c : Chunked) (chunk : Chunk) : Chunked :=
  { c.pass chunk.bytes with chunks := chunk.data :: c.chunks }

@[simp] theorem data_passLast (c : Chunked) (line : List UInt8) :
    (c.passLast line).data = c.data := rfl

@[simp] theorem data_passChunk (c : Chunked) (chunk : Chunk) :
    (c.passChunk chunk).data = c.data ++ chunk.data := by
  simp [passChunk, Chunked.data]

theorem sizeOfLine_eq_ok_iff :
    sizeOfLine line = .ok size ↔
      ∃ text, Utf8.decode line = .ok text ∧
        readNumeral 16 (trim (text.takeWhile (· != ';'))) = some size := by
  rw [sizeOfLine]
  cases Utf8.decode line with
  | error e => simp
  | ok text => cases hsize : readNumeral 16 (trim (text.takeWhile (· != ';'))) <;> simp [hsize]

/-- A chunk is read on when data of its size and a line ending stand behind its size line. -/
theorem readData_eq_next_iff_exists :
    c.readData buf lineEnd size = .ok (.next w) ↔
      dataStop lineEnd size < wordSize ∧ ∃ data : List UInt8, data.length = size ∧
        data ++ lineEndBytes <+: buf.toList.drop (lineEnd + lineEndLength) ∧
        w = { c.continueAt (dataStop lineEnd size + lineEndLength) with
          chunks := data :: c.chunks } := by
  have htwo : lineEndLength = lineEndBytes.length := rfl
  have hsum : dataStop lineEnd size = lineEnd + lineEndLength + size := rfl
  rw [readData_eq_next_iff]
  refine and_congr_right fun _ => ?_
  constructor
  · rintro ⟨hle, hmark, rfl⟩
    have hlen : (bytesBetween buf (lineEnd + lineEndLength) (dataStop lineEnd size)).length =
        size := by
      rw [length_bytesBetween (by omega), hsum, Nat.add_sub_cancel_left]
    refine ⟨_, hlen, append_prefix_drop (isPrefix_bytesBetween _ _ _) ?_, rfl⟩
    rw [hlen, ← hsum, ← hmark]
    exact isPrefix_bytesBetween _ _ _
  · rintro ⟨data, rfl, hstands, rfl⟩
    have hle := add_length_le_size hstands (by simp [lineEndBytes])
    rw [List.length_append, ← Nat.add_assoc, ← hsum] at hle
    refine ⟨hle, ?_, ?_⟩
    · rw [htwo, hsum]
      exact bytesBetween_of_prefix (prefix_drop_of_append hstands)
    · rw [hsum, bytesBetween_of_prefix ((List.prefix_append _ _).trans hstands)]

/-- Only the empty line behind the trailers ends a body. -/
theorem of_afterLine_eq_finished
    (h : c.afterLine buf lineEnd = .ok (.rest (.finished data stop))) :
    c.trailing = true ∧ lineEnd = c.position ∧ data = c.data ∧ stop = lineEnd + lineEndLength := by
  rw [afterLine] at h
  by_cases htrailing : c.trailing = true
  · rw [if_pos htrailing] at h
    by_cases hempty : lineEnd = c.position
    · rw [if_pos hempty] at h
      simp only [Except.ok.injEq, Step.rest.injEq, Progress.finished.injEq] at h
      exact ⟨htrailing, hempty, h.1.symm, h.2.symm⟩
    · rw [if_neg hempty] at h
      simp at h
  · rw [if_neg htrailing] at h
    cases hsize : sizeOfLine (bytesBetween buf c.position lineEnd) with
    | error e =>
      rw [hsize] at h
      simp at h
    | ok size =>
      rw [hsize] at h
      cases size with
      | zero => simp at h
      | succ n =>
        simp only [readData] at h
        split_ifs at h <;> simp at h

/-- From the start of a line, a step that does not wait goes on behind a line. -/
theorem exists_line_of_step {s : Step} (hc : c.searched = c.position) (h : c.step buf = .ok s)
    (hwait : ∀ w, s ≠ .rest (.waiting w)) :
    ∃ line, ¬ lineEndBytes <:+: line ∧ line ++ lineEndBytes <+: buf.toList.drop c.position ∧
      c.afterLine buf (c.position + line.length) = .ok s := by
  cases hfind : findFrom lineEndAt? buf c.position with
  | none =>
    rw [step_of_find_none hc hfind, Except.ok.injEq] at h
    exact absurd h.symm (hwait _)
  | some found =>
    obtain ⟨lineEnd, ⟨⟩⟩ := found
    obtain ⟨line, hline, hstands, rfl⟩ := findFrom_lineEndAt?_eq_some_iff.1 hfind
    exact ⟨line, hline, hstands, (step_of_find_some hc hfind).symm.trans h⟩

/-- **What a step reads on.** A trailer line, the last size line, or a chunk. -/
theorem step_next_cases (hc : c.searched = c.position) (h : c.step buf = .ok (.next w)) :
    (∃ line, c.trailing = true ∧ TrailerLine line ∧
        line ++ lineEndBytes <+: buf.toList.drop c.position ∧ w = c.pass (line ++ lineEndBytes)) ∨
      (∃ line, c.trailing = false ∧ SizeLine line 0 ∧
        line ++ lineEndBytes <+: buf.toList.drop c.position ∧ w = c.passLast line) ∨
      (∃ chunk : Chunk, c.trailing = false ∧ chunk.bytes <+: buf.toList.drop c.position ∧
        w = c.passChunk chunk) := by
  obtain ⟨line, hline, hstands, hafter⟩ := exists_line_of_step hc h (by simp)
  have hbetween : bytesBetween buf c.position (c.position + line.length) = line :=
    bytesBetween_of_prefix ((List.prefix_append _ _).trans hstands)
  have hpass : c.continueAt (c.position + line.length + lineEndLength) =
      c.pass (line ++ lineEndBytes) := by
    rw [pass, List.length_append, ← Nat.add_assoc, lineEndLength]
  rcases of_afterLine_eq_next hafter with ⟨htrailing, hne, rfl⟩ | ⟨htrailing, hzero, rfl⟩ |
    ⟨htrailing, n, hsize, hread⟩
  · refine .inl ⟨line, htrailing, ⟨hline, ?_⟩, hstands, hpass⟩
    rintro rfl
    exact hne rfl
  · rw [hbetween, sizeOfLine_eq_ok_iff] at hzero
    exact .inr (.inl ⟨line, htrailing, ⟨hline, hzero⟩, hstands, by rw [hpass, passLast]⟩)
  · obtain ⟨-, data, hlen, hdata, rfl⟩ := readData_eq_next_iff_exists.1 hread
    rw [hbetween, sizeOfLine_eq_ok_iff, ← hlen] at hsize
    refine .inr (.inr ⟨⟨line, data, ⟨hline, hsize⟩, List.ne_nil_of_length_eq_add_one hlen⟩,
      htrailing, ?_, ?_⟩)
    · rw [Chunk.bytes, List.append_assoc _ data]
      refine append_prefix_drop hstands ?_
      rw [List.length_append, ← Nat.add_assoc]
      exact hdata
    · have hend : dataStop (c.position + line.length) (n + 1) + lineEndLength =
          c.position + (line ++ lineEndBytes ++ data ++ lineEndBytes).length := by
        simp only [List.length_append, dataStop, lineEndLength, hlen]
        omega
      rw [passChunk, pass, Chunk.bytes, hend]

/-- A step goes on behind the line that stands at the position. -/
theorem step_of_line (hc : c.searched = c.position) (hline : ¬ lineEndBytes <:+: line)
    (hstands : line ++ lineEndBytes <+: buf.toList.drop c.position) :
    c.step buf = c.afterLine buf (c.position + line.length) :=
  step_of_find_some hc (findFrom_lineEndAt?_eq_some_iff.2 ⟨line, hline, hstands, rfl⟩)

theorem step_of_trailer (hc : c.searched = c.position) (htrailing : c.trailing = true)
    (hline : TrailerLine line)
    (hstands : line ++ lineEndBytes <+: buf.toList.drop c.position) :
    c.step buf = .ok (.next (c.pass (line ++ lineEndBytes))) := by
  have hpos := List.length_pos_of_ne_nil hline.ne_nil
  rw [step_of_line hc hline.unbroken hstands, afterLine, if_pos htrailing, if_neg (by omega),
    pass, List.length_append, ← Nat.add_assoc, lineEndLength]

theorem step_of_empty_line (hc : c.searched = c.position) (htrailing : c.trailing = true)
    (hstands : lineEndBytes <+: buf.toList.drop c.position) :
    c.step buf = .ok (.rest (.finished c.data (c.position + lineEndLength))) := by
  have hnil : ¬ lineEndBytes <:+: ([] : List UInt8) := by simp [lineEndBytes]
  rw [step_of_line hc hnil hstands, afterLine, if_pos htrailing]
  exact if_pos rfl

theorem step_of_last (hc : c.searched = c.position) (htrailing : c.trailing = false)
    (hline : SizeLine line 0)
    (hstands : line ++ lineEndBytes <+: buf.toList.drop c.position) :
    c.step buf = .ok (.next (c.passLast line)) := by
  rw [step_of_line hc hline.unbroken hstands, afterLine, if_neg (by simp [htrailing]),
    bytesBetween_of_prefix ((List.prefix_append _ _).trans hstands),
    sizeOfLine_eq_ok_iff.2 hline.reads, passLast, pass, List.length_append, ← Nat.add_assoc,
    lineEndLength]
  rfl

/-- Data that lie in a buffer have a size that does not overflow. -/
theorem step_of_chunk (hbuf : buf.size < wordSize) (hc : c.searched = c.position)
    (htrailing : c.trailing = false) {chunk : Chunk}
    (hstands : chunk.bytes <+: buf.toList.drop c.position) :
    c.step buf = .ok (.next (c.passChunk chunk)) := by
  obtain ⟨n, hn⟩ := Nat.exists_eq_add_one.2 (List.length_pos_of_ne_nil chunk.data_ne_nil)
  have hend : c.position + chunk.bytes.length =
      dataStop (c.position + chunk.line.length) chunk.data.length + lineEndLength := by
    simp only [Chunk.bytes, List.length_append, dataStop, lineEndLength]
    omega
  have hword : dataStop (c.position + chunk.line.length) chunk.data.length < wordSize := by
    have hle := add_length_le_size hstands (by simp [Chunk.bytes, lineEndBytes])
    rw [hend] at hle
    exact Nat.lt_of_le_of_lt ((Nat.le_add_right _ _).trans hle) hbuf
  rw [Chunk.bytes, List.append_assoc _ chunk.data] at hstands
  have hline := (List.prefix_append _ _).trans hstands
  have hdata := prefix_drop_of_append hstands
  rw [List.length_append, ← Nat.add_assoc] at hdata
  have hread := readData_eq_next_iff_exists (c := c).2 ⟨hword, chunk.data, rfl, hdata, rfl⟩
  rw [step_of_line hc chunk.sized.unbroken hline, afterLine, if_neg (by simp [htrailing]),
    bytesBetween_of_prefix ((List.prefix_append _ _).trans hline),
    sizeOfLine_eq_ok_iff.2 chunk.sized.reads, passChunk, pass, hend]
  rw [hn] at hread ⊢
  exact hread

/-! ### What is left of a body -/

/-- That what is **left** of a body is there, ends at `stop` and makes the data complete: trailer
lines behind the chunks, or else a chunking. -/
def Left (c : Chunked) (buf : Buffer) (data : List UInt8) (stop : Nat) : Prop :=
  if c.trailing then
    ∃ trailers, (∀ line ∈ trailers, TrailerLine line) ∧
      StandsBetween buf c.position stop (trailerBytes trailers) ∧ data = c.data
  else ∃ t : Chunking, StandsBetween buf c.position stop t.bytes ∧ data = c.data ++ t.data

theorem left_of_trailing (h : c.trailing = true) :
    c.Left buf data stop ↔
      ∃ trailers, (∀ line ∈ trailers, TrailerLine line) ∧
        StandsBetween buf c.position stop (trailerBytes trailers) ∧ data = c.data := by
  rw [Left, if_pos h]

theorem left_of_not_trailing (h : c.trailing = false) :
    c.Left buf data stop ↔
      ∃ t : Chunking, StandsBetween buf c.position stop t.bytes ∧ data = c.data ++ t.data := by
  rw [Left, if_neg (by simp [h])]

/-- What is left in front of a step is what it reads on and what is left behind it. -/
theorem left_of_step_next (hc : c.searched = c.position) (h : c.step buf = .ok (.next w))
    (hw : w.Left buf data stop) : c.Left buf data stop := by
  rcases step_next_cases hc h with ⟨line, htrailing, hline, hstands, rfl⟩ |
    ⟨line, htrailing, hline, hstands, rfl⟩ | ⟨chunk, htrailing, hstands, rfl⟩
  · obtain ⟨trailers, hlines, hrest, hdata⟩ := (left_of_trailing (c := c.pass _) htrailing).1 hw
    refine (left_of_trailing htrailing).2
      ⟨line :: trailers, List.forall_mem_cons.2 ⟨hline, hlines⟩, ?_, hdata⟩
    rw [trailerBytes_cons]
    exact standsBetween_append_iff.2 ⟨hstands, hrest⟩
  · obtain ⟨trailers, hlines, hrest, hdata⟩ := (left_of_trailing rfl).1 hw
    have hbetween := standsBetween_append_iff.2 ⟨hstands, hrest⟩
    refine (left_of_not_trailing htrailing).2
      ⟨⟨[], line, hline, trailers, hlines⟩, hbetween, ?_⟩
    rw [hdata, data_passLast]
    exact (List.append_nil _).symm
  · obtain ⟨t, hrest, rfl⟩ := (left_of_not_trailing (c := c.passChunk _) htrailing).1 hw
    refine (left_of_not_trailing htrailing).2 ⟨t.push chunk, ?_, ?_⟩
    · rw [Chunking.bytes_push]
      exact standsBetween_append_iff.2 ⟨hstands, hrest⟩
    · rw [data_passChunk, Chunking.data_push, List.append_assoc]

/-- A step that ends the body reads the empty line that is left. -/
theorem left_of_step_finished (hc : c.searched = c.position)
    (h : c.step buf = .ok (.rest (.finished data stop))) : c.Left buf data stop := by
  obtain ⟨line, hline, hstands, hafter⟩ := exists_line_of_step hc h (by simp)
  obtain ⟨htrailing, hempty, rfl, rfl⟩ := of_afterLine_eq_finished hafter
  obtain rfl : line = [] := List.eq_nil_of_length_eq_zero (by omega)
  exact (left_of_trailing htrailing).2 ⟨[], by simp, ⟨hstands, rfl⟩, rfl⟩

/-- A body that is read to its end was left there as a whole. -/
theorem left_of_resume (hc : c.searched = c.position)
    (h : c.resume buf = .ok (.finished data stop)) : c.Left buf data stop := by
  fun_induction resume c buf with
  | case1 c e hstep => simp at h
  | case2 c p hstep =>
    rw [Except.ok.inj h] at hstep
    exact left_of_step_finished hc hstep
  | case3 c d hstep ih => exact left_of_step_next hc hstep (ih (searched_of_step hc hstep) h)

/-- What is left is read by a step: something in front of it, or the empty line at its end. -/
theorem step_of_left (hbuf : buf.size < wordSize) (hc : c.searched = c.position)
    (h : c.Left buf data stop) :
    c.step buf = .ok (.rest (.finished data stop)) ∨
      ∃ w, c.step buf = .ok (.next w) ∧ w.Left buf data stop := by
  cases htrailing : c.trailing with
  | true =>
    obtain ⟨trailers, hlines, hstands, rfl⟩ := (left_of_trailing htrailing).1 h
    cases trailers with
    | nil =>
      obtain ⟨hstarts, rfl⟩ := hstands
      exact .inl (step_of_empty_line hc htrailing hstarts)
    | cons line trailers =>
      obtain ⟨hline, hlines⟩ := List.forall_mem_cons.1 hlines
      rw [trailerBytes_cons, standsBetween_append_iff] at hstands
      exact .inr ⟨_, step_of_trailer hc htrailing hline hstands.1,
        (left_of_trailing (c := c.pass _) htrailing).2 ⟨trailers, hlines, hstands.2, rfl⟩⟩
  | false =>
    obtain ⟨⟨chunks, last, hlast, trailers, hlines⟩, hstands, rfl⟩ :=
      (left_of_not_trailing htrailing).1 h
    cases chunks with
    | nil =>
      change StandsBetween buf c.position stop (last ++ lineEndBytes ++ trailerBytes trailers)
        at hstands
      obtain ⟨hstarts, hrest⟩ := standsBetween_append_iff.1 hstands
      exact .inr ⟨_, step_of_last hc htrailing hlast hstarts,
        (left_of_trailing rfl).2 ⟨trailers, hlines, hrest, List.append_nil _⟩⟩
    | cons chunk chunks =>
      let t : Chunking := ⟨chunks, last, hlast, trailers, hlines⟩
      change StandsBetween buf c.position stop (t.push chunk).bytes at hstands
      rw [Chunking.bytes_push, standsBetween_append_iff] at hstands
      refine .inr ⟨_, step_of_chunk hbuf hc htrailing hstands.1,
        (left_of_not_trailing (c := c.passChunk _) htrailing).2 ⟨t, hstands.2, ?_⟩⟩
      rw [data_passChunk, List.append_assoc, ← Chunking.data_push]
      rfl

/-- What is left as a whole is read to its end. -/
theorem resume_of_left (hbuf : buf.size < wordSize) (hc : c.searched = c.position)
    (h : c.Left buf data stop) : c.resume buf = .ok (.finished data stop) := by
  -- on the steps of the reader: each reads something off the front of what is left
  fun_induction resume c buf with
  | case1 c e hstep =>
    rcases step_of_left hbuf hc h with hend | ⟨w, hnext, -⟩
    · exact absurd (hstep.symm.trans hend) (by simp)
    · exact absurd (hstep.symm.trans hnext) (by simp)
  | case2 c p hstep =>
    rcases step_of_left hbuf hc h with hend | ⟨w, hnext, -⟩
    · simpa using hstep.symm.trans hend
    · exact absurd (hstep.symm.trans hnext) (by simp)
  | case3 c d hstep ih =>
    rcases step_of_left hbuf hc h with hend | ⟨w, hnext, hw⟩
    · exact absurd (hstep.symm.trans hend) (by simp)
    · obtain rfl : d = w := by simpa using hstep.symm.trans hnext
      exact ih (searched_of_step hc hstep) hw

/-- **Reading the rest of a body.** From the start of a line, reading ends where what is left ends,
with the data that it makes complete. -/
theorem resume_eq_finished_iff (hbuf : buf.size < wordSize) (hc : c.searched = c.position) :
    c.resume buf = .ok (.finished data stop) ↔ c.Left buf data stop :=
  ⟨left_of_resume hc, resume_of_left hbuf hc⟩

end Chunked

/-! ### Chunked bodies are chunkings -/

namespace Chunking

/-- **Exactly the chunkings are read.** In a buffer whose size is a word, as that of every buffer in
memory is, reading a body from a position on ends at `stop` with some data just when the bytes up to
there are those of a chunking of the data; and all chunkings from a position on end at the same
place and have the same data. -/
theorem resume_start_eq_finished_iff (hbuf : buf.size < wordSize) (start : Nat) :
    (∀ data stop, (Chunked.start start).resume buf = .ok (.finished data stop) ↔
        ∃ t : Chunking, slice? buf start stop = some t.bytes ∧ t.data = data) ∧
      ∀ (t t' : Chunking) (stop stop' : Nat), slice? buf start stop = some t.bytes →
        slice? buf start stop' = some t'.bytes → stop = stop' ∧ t.data = t'.data := by
  have hiff : ∀ data stop, (Chunked.start start).resume buf = .ok (.finished data stop) ↔
      ∃ t : Chunking, slice? buf start stop = some t.bytes ∧ t.data = data := by
    intro data stop
    rw [Chunked.resume_eq_finished_iff hbuf rfl, Chunked.left_of_not_trailing rfl]
    refine exists_congr fun t => and_congr (slice?_eq_some_iff t.bytes_ne_nil).symm ?_
    exact eq_comm
  refine ⟨hiff, fun t t' stop stop' ht ht' => ?_⟩
  have hread := (hiff t.data stop).2 ⟨t, ht, rfl⟩
  have hread' := (hiff t'.data stop').2 ⟨t', ht', rfl⟩
  simpa [and_comm] using hread.symm.trans hread'

/-- Two chunks, the first with an extension and with a line ending in its data, and a trailer. -/
def twoChunks : Chunking where
  chunks :=
    [⟨Utf8.bytesOf "4;x=y", Utf8.bytesOf "a\r\nb", ⟨by decide, _, rfl, by decide⟩, by decide⟩,
      ⟨Utf8.bytesOf " 01\r", Utf8.bytesOf "c", ⟨by decide, _, rfl, by decide⟩, by decide⟩]
  last := Utf8.bytesOf "00"
  last_sized := ⟨by decide, _, rfl, by decide⟩
  trailers := [Utf8.bytesOf "t: u"]
  trailers_lines := by
    intro line hline
    obtain rfl := List.mem_singleton.1 hline
    exact ⟨by decide, by decide⟩

/-- It is read from behind two other bytes, up to what follows it. -/
theorem resume_start_twoChunks :
    (Chunked.start 2).resume
        (Utf8.bytesOf "\n\n4;x=y\r\na\r\nb\r\n 01\r\r\nc\r\n00\r\nt: u\r\n\r\nGET").toArray =
      .ok (.finished (Utf8.bytesOf "a\r\nbc") 36) :=
  ((resume_start_eq_finished_iff (by decide) 2).1 _ _).2 ⟨twoChunks, by decide, by decide⟩

end Chunking

end HttpEngine
