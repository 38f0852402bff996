import HttpEngine.Intake.Position
import HttpEngine.Message.RequestError
import HttpEngine.Text.Blank
/-!
# Chunked bodies

A chunked body is a sequence of chunks, each a size line and that many bytes of data, both ended
by CR LF; then a size line of zero, trailer lines, and an empty line. Chunk extensions and trailers
are read over.

The body is read **resumably**: `Chunked` remembers where the next line starts, how far it has been
searched for its end, and the data of the complete chunks, so a chunk is copied once however its
bytes arrive. `step?` reads one line, with its data, if the buffer holds them; `resume` reads all
that the buffer holds. The search for a line's end goes back by one byte, for a CR that was the
last byte of the buffer may meet its LF only now.

`step?` takes slices of the buffer, and `step?_isSome` says that they always exist, whatever
buffer it is given; this is why `resume` has a result for every state and buffer.
-/

namespace HttpEngine

open Text

/-- How far a chunked body has been read. -/
structure Chunked where
  /-- Where the next size line or trailer line starts. -/
  position : Nat
  /-- How far that line has been searched for its end. -/
  searched : Nat
  /-- Whether the chunk of size zero has been read. -/
  trailing : Bool
  /-- The data of the chunks before, the latest first. -/
  chunks : List (List UInt8)
  deriving DecidableEq, Repr

namespace Chunked

/-- A body that starts at a position and of which nothing has been read. -/
def start (position : Nat) : Chunked := ⟨position, position, false, []⟩

/-- The data that have been read. -/
def data (c : Chunked) : List UInt8 := c.chunks.reverse.flatten

/-- The chunk size that a size line gives: the numeral before the first semicolon. -/
def sizeOfLine (line : List UInt8) : Except ChunkError Nat :=
  match Utf8.decode line with
  | .error _ => .error .sizeNotUtf8
  | .ok text =>
    let numeral := trim (text.takeWhile (· != ';'))
    match readNumeral 16 numeral with
    | some size => .ok size
    | none => .error (.invalidSize numeral)

/-- Where reading stops until there are more bytes, or for good. -/
inductive Progress where
  | waiting (c : Chunked)
  /-- The whole body has been read; it ends at `stop`. -/
  | finished (data : List UInt8) (stop : Nat)
  deriving DecidableEq, Repr

/-- The outcome of reading one line with its data. -/
inductive Step where
  | next (c : Chunked)
  | rest (p : Progress)
  deriving DecidableEq, Repr

/-- The state behind a line whose end is at `position`. -/
def continueAt (c : Chunked) (position : Nat) : Chunked :=
  { c with position := position, searched := position }

/-- Where the data of a chunk stop whose size line ends at `lineEnd`. -/
def dataStop (lineEnd size : Nat) : Nat := lineEnd + lineEndLength + size

/-- Reads the data of a chunk whose size line ends at `lineEnd`; there is no result if a slice
does not exist. -/
def readData? (c : Chunked) (buf : Buffer) (lineEnd size : Nat) :
    Option (Except ChunkError Step) :=
  if wordSize ≤ dataStop lineEnd size then some (.error (.sizeOverflow size))
  else if buf.size < dataStop lineEnd size + lineEndLength then
    some (.ok (.rest (.waiting { c with searched := lineEnd })))
  else
    (slice? buf (dataStop lineEnd size) (dataStop lineEnd size + lineEndLength)).bind fun mark =>
      if mark ≠ lineEndBytes then some (.error .unterminated)
      else
        (slice? buf (lineEnd + lineEndLength) (dataStop lineEnd size)).map fun data =>
          .ok (.next { c.continueAt (dataStop lineEnd size + lineEndLength) with
            chunks := data :: c.chunks })

/-- Reads one line, with its data if it opens a chunk; there is no result if a slice does not
exist. -/
def step? (c : Chunked) (buf : Buffer) : Option (Except ChunkError Step) :=
  match findFrom lineEndAt? buf (max c.position (c.searched - 1)) with
  | none => some (.ok (.rest (.waiting { c with searched := buf.size })))
  | some (lineEnd, _) =>
    if c.trailing then
      if lineEnd = c.position then some (.ok (.rest (.finished c.data (lineEnd + lineEndLength))))
      else some (.ok (.next (c.continueAt (lineEnd + lineEndLength))))
    else
      (slice? buf c.position lineEnd).bind fun line =>
        match sizeOfLine line with
        | .error e => some (.error e)
        | .ok 0 =>
          some (.ok (.next { c.continueAt (lineEnd + lineEndLength) with trailing := true }))
        | .ok size => c.readData? buf lineEnd size

/-- The slices that reading a chunk's data asks for exist. -/
theorem readData?_isSome (c : Chunked) (buf : Buffer) (lineEnd size : Nat) :
    (c.readData? buf lineEnd size).isSome := by
  unfold readData?
  split
  · rfl
  · split
    · rfl
    · have hstart : lineEnd + lineEndLength ≤ dataStop lineEnd size := Nat.le_add_right _ _
      rw [slice?_eq_some (Nat.le_add_right _ _) (by omega), slice?_eq_some hstart (by omega),
        Option.bind_some]
      split <;> rfl

/-- Every slice that reading a line asks for exists. -/
theorem step?_isSome (c : Chunked) (buf : Buffer) : (c.step? buf).isSome := by
  unfold step?
  split
  · rfl
  · next lineEnd _ h =>
    split
    · split <;> rfl
    · have hf := findFrom_lineEndAt? h
      rw [slice?_eq_some (by omega) (by omega), Option.bind_some]
      split
      · rfl
      · rfl
      · exact readData?_isSome c _ _ _

/-- The outcome of reading one line with its data. -/
def step (c : Chunked) (buf : Buffer) : Except ChunkError Step :=
  (c.step? buf).get (c.step?_isSome buf)

theorem step?_eq (c : Chunked) (buf : Buffer) : c.step? buf = some (c.step buf) := by
  simp [step]

/-- A chunk that is read moves the position on, inside the buffer. -/
theorem lt_position_of_readData? {c d : Chunked} {buf : Buffer} {lineEnd size : Nat}
    (h : c.readData? buf lineEnd size = some (.ok (.next d))) :
    lineEnd < d.position ∧ d.position ≤ buf.size := by
  have htwo : lineEndLength = 2 := rfl
  have hstart : lineEnd + lineEndLength ≤ dataStop lineEnd size := Nat.le_add_right _ _
  unfold readData? at h
  split at h
  · simp at h
  · split at h
    · simp at h
    · rw [slice?_eq_some (Nat.le_add_right _ _) (by omega), slice?_eq_some hstart (by omega),
        Option.bind_some] at h
      split at h
      · simp at h
      · simp only [Option.map_some, Option.some.injEq, Except.ok.injEq, Step.next.injEq] at h
        subst h
        simp only [continueAt]
        omega

/-- Reading a chunk's data does not end the body. -/
theorem readData?_ne_finished (c : Chunked) (buf : Buffer) (lineEnd size : Nat)
    {data : List UInt8} {stop : Nat} :
    c.readData? buf lineEnd size ≠ some (.ok (.rest (.finished data stop))) := by
  intro h
  have hstart : lineEnd + lineEndLength ≤ dataStop lineEnd size := Nat.le_add_right _ _
  unfold readData? at h
  split at h
  · simp at h
  · split at h
    · simp at h
    · rw [slice?_eq_some (Nat.le_add_right _ _) (by omega), slice?_eq_some hstart (by omega),
        Option.bind_some] at h
      split at h <;> simp at h

/-- A line that is read moves the position on, inside the buffer. -/
theorem lt_position_of_step {c d : Chunked} {buf : Buffer} (h : c.step buf = .ok (.next d)) :
    c.position < d.position ∧ d.position ≤ buf.size := by
  have hs := c.step?_eq buf
  have htwo : lineEndLength = 2 := rfl
  rw [h] at hs
  unfold step? at hs
  split at hs
  · simp at hs
  · next lineEnd _ hfind =>
    have hf := findFrom_lineEndAt? hfind
    split at hs
    · split at hs
      · simp at hs
      · simp only [Option.some.injEq, Except.ok.injEq, Step.next.injEq] at hs
        subst hs
        simp only [continueAt]
        omega
    · rw [slice?_eq_some (by omega) (by omega), Option.bind_some] at hs
      split at hs
      · simp at hs
      · simp only [Option.some.injEq, Except.ok.injEq, Step.next.injEq] at hs
        subst hs
        simp only [continueAt]
        omega
      · have := lt_position_of_readData? hs
        omega

/-- Reads as many lines and chunks as a buffer holds. -/
def resume (c : Chunked) (buf : Buffer) : Except ChunkError Progress :=
  match _h : c.step buf with
  | .error e => .error e
  | .ok (.rest p) => .ok p
  | .ok (.next d) => d.resume buf
termination_by buf.size - c.position
decreasing_by
  have := lt_position_of_step _h
  omega

/-- The line with which a body ends lies in the buffer. -/
theorem stop_of_step {c : Chunked} {buf : Buffer} {data : List UInt8} {stop : Nat}
    (h : c.step buf = .ok (.rest (.finished data stop))) : 0 < stop ∧ stop ≤ buf.size := by
  have hs := c.step?_eq buf
  have htwo : lineEndLength = 2 := rfl
  rw [h] at hs
  unfold step? at hs
  split at hs
  · simp at hs
  · next lineEnd _ hfind =>
    have hf := findFrom_lineEndAt? hfind
    split at hs
    · split at hs
      · simp only [Option.some.injEq, Except.ok.injEq, Step.rest.injEq,
          Progress.finished.injEq] at hs
        omega
      · simp at hs
    · rw [slice?_eq_some (by omega) (by omega), Option.bind_some] at hs
      split at hs
      · simp at hs
      · simp at hs
      · exact absurd hs (readData?_ne_finished c _ _ _)

/-- A body that is read to its end ends inside the buffer, behind at least one byte. -/
theorem stop_of_resume {c : Chunked} {buf : Buffer} {data : List UInt8} {stop : Nat}
    (h : c.resume buf = .ok (.finished data stop)) : 0 < stop ∧ stop ≤ buf.size := by
  fun_induction resume c buf with
  | case1 => simp at h
  | case2 c p hstep =>
    simp only [Except.ok.injEq] at h
    subst h
    exact stop_of_step hstep
  | case3 c d hstep ih => exact ih h

end Chunked

end HttpEngine
