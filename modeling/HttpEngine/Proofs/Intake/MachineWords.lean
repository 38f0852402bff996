import HttpEngine.Proofs.Intake.Offset
import HttpEngine.Proofs.Intake.Resumption
/-!
# Decoding in machine words

The decoder counts with natural numbers. A machine counts with words, and it has no result for a
sum that is no word, for a difference below zero, and for a slice that does not lie in the buffer.
Here the decoder is written once more with such operations, wherever it adds, subtracts or takes a
slice (`Decoder.decodeInWords?`); as soon as one of them has no result, nor has the decoder.

It always has one, and the same as the decoder that counts with natural numbers, whatever state it
is in and whatever buffer it is shown, as long as the size of the buffer is a word
(`Decoder.decodeInWords?_eq`). So it does not matter whether the buffer extends the one before, nor
what sizes a peer declares: where such a size is added to a position, the decoder provides for a sum
that is no word.

The argument is the same everywhere. Any other sum is a position up to which something has been
found in the buffer; if it is no word, nor is the size of the buffer. So each part of the decoder
**comes to** its result unless the buffer is too large (`ComesTo`), and parts that do so one after
the other do so together (`ComesTo.bind`). What is kept between calls are words again
(`Decoder.fits_decode`).
-/

namespace HttpEngine

open Text

variable {α β : Type} {buf : Buffer} {i m n lineEnd size : Nat}

/-! ### Operations on words -/

/-- The sum of two words; there is no result if it is no word. -/
def addWords? (m n : Nat) : Option Nat := if m + n < wordSize then some (m + n) else none

/-- The difference of two words; there is no result if it is below zero. -/
def subWords? (m n : Nat) : Option Nat := if n ≤ m then some (m - n) else none

/-- The bytes from position `i` on; there is no result if it does not lie in the buffer. -/
def sliceFrom? (buf : Buffer) (i : Nat) : Option Buffer :=
  if i ≤ buf.size then some (buf.extract i) else none

theorem addWords?_eq_some_iff {s : Nat} : addWords? m n = some s ↔ s = m + n ∧ s < wordSize := by
  rw [addWords?]
  split_ifs with hword
  · rw [Option.some_inj]
    omega
  · exact iff_of_false (by simp) fun h => hword (h.1 ▸ h.2)

theorem pos_of_addWords? {s : Nat} (hn : 0 < n) (h : addWords? m n = some s) : 0 < s := by
  have hs := (addWords?_eq_some_iff.1 h).1
  omega

/-- That a computation on a buffer **comes to** a result: it has this one, or it has none and the
size of the buffer is no word. -/
inductive ComesTo (buf : Buffer) : Option α → α → Prop
  | result (a : α) : ComesTo buf (some a) a
  | tooLarge {a : α} (h : wordSize ≤ buf.size) : ComesTo buf none a

namespace ComesTo

variable {x : Option α} {a : α}

theorem eq_some (h : ComesTo buf x a) (hword : buf.size < wordSize) : x = some a := by
  cases h with
  | result => rfl
  | tooLarge h => exact absurd hword (Nat.not_lt.2 h)

theorem le_of_eq_none (h : ComesTo buf x a) (hx : x = none) : wordSize ≤ buf.size := by
  cases h with
  | result => simp at hx
  | tooLarge h => exact h

theorem eq_of_eq_some {b : α} (h : ComesTo buf x a) (hx : x = some b) : a = b := by
  cases h with
  | result => exact Option.some_inj.1 hx
  | tooLarge => simp at hx

/-- A computation that goes on with a result comes to what it comes to from there. -/
theorem bind {f : α → Option β} {b : β} (h : ComesTo buf x a) (hf : ComesTo buf (f a) b) :
    ComesTo buf (x.bind f) b := by
  cases h with
  | result => exact hf
  | tooLarge h => exact .tooLarge h

theorem map (f : α → β) (h : ComesTo buf x a) : ComesTo buf (x.map f) (f a) := by
  cases h with
  | result => exact .result _
  | tooLarge h => exact .tooLarge h

end ComesTo

/-- Positions in a buffer are added up without harm. -/
theorem comesTo_addWords (h : m + n ≤ buf.size) : ComesTo buf (addWords? m n) (m + n) := by
  rw [addWords?]
  split_ifs with hword
  · exact .result _
  · exact .tooLarge (by omega)

/-- A slice exists if its ends lie in the buffer in order. -/
theorem comesTo_slice (hmn : m ≤ n) (hn : n ≤ buf.size) :
    ComesTo buf (slice? buf m n) (bytesBetween buf m n) := by
  rw [slice?_eq_some hmn hn]
  exact .result _

/-! ### Searches -/

/-- The position of the first line ending from position `i` on, by a search in the bytes from there.
Where there are none, nothing is found. -/
def findLineEnd? (buf : Buffer) (i : Nat) : Option (Option Nat) :=
  match sliceFrom? buf i with
  | none => some none
  | some rest =>
    match findFrom lineEndAt? rest 0 with
    | none => some none
    | some (p, _) => (addWords? i p).map some

/-- The first blank line from position `i` on, looked for in the bytes from one position after the
other. -/
def findBlankLine? (buf : Buffer) (i : Nat) : Option (Option (Nat × BlankLine)) :=
  if _hi : i < buf.size then
    (sliceFrom? buf i).bind fun rest =>
      match blankLineAt? rest 0 with
      | some blank => some (some (i, blank))
      | none =>
        match _hnext : addWords? i 1 with
        | none => none
        | some next => findBlankLine? buf next
  else some none
termination_by buf.size - i
decreasing_by
  have hnext := (addWords?_eq_some_iff.1 _hnext).1
  omega

theorem comesTo_findLineEnd (buf : Buffer) (i : Nat) :
    ComesTo buf (findLineEnd? buf i) ((findFrom lineEndAt? buf i).map Prod.fst) := by
  rw [findLineEnd?, sliceFrom?]
  split_ifs with hi
  · have hbehind := standsBehind_extract hi
    have hfind := hbehind.find_eq hbehind.lineEndAt?_eq 0
    rw [Nat.add_zero] at hfind
    simp only [hfind]
    cases hrest : findFrom lineEndAt? (buf.extract i) 0 with
    | none => exact .result _
    | some found =>
      obtain ⟨p, ⟨⟩⟩ := found
      rw [hrest] at hfind
      have hsize : i + p ≤ buf.size := Nat.le_of_add_right_le (findFrom_lineEndAt? hfind).2
      exact (comesTo_addWords hsize).map some
  · rw [findFrom_of_size_le (Nat.le_of_not_le hi)]
    exact .result _

theorem comesTo_findBlankLine (buf : Buffer) (i : Nat) :
    ComesTo buf (findBlankLine? buf i) (findFrom blankLineAt? buf i) := by
  -- on the positions from `i` on, as the search passes them
  fun_induction findBlankLine? buf i with
  | case1 i hi ih =>
    have hrest := (standsBehind_extract (Nat.le_of_lt hi)).blankLineAt?_eq 0
    rw [Nat.add_zero] at hrest
    rw [sliceFrom?, if_pos (Nat.le_of_lt hi), Option.bind_some, ← hrest]
    cases hblank : blankLineAt? buf i with
    | some blank =>
      rw [findFrom_of_recognised hi hblank]
      exact .result _
    | none =>
      rw [← findFrom_succ hblank]
      simp only
      split
      · next hnext => exact .tooLarge ((comesTo_addWords hi).le_of_eq_none hnext)
      · next next hnext =>
        obtain ⟨rfl, -⟩ := addWords?_eq_some_iff.1 hnext
        exact ih _ hnext
  | case2 i hi =>
    rw [findFrom_of_size_le (Nat.le_of_not_lt hi)]
    exact .result _

/-! ### Chunked bodies -/

/-- Whether less than a line ending stands behind position `i`. The difference is taken only for a
position in the buffer. -/
def lacksLineEnd? (buf : Buffer) (i : Nat) : Option Bool :=
  if buf.size < i then some true
  else (subWords? buf.size i).map fun left => decide (left < lineEndLength)

theorem lacksLineEnd?_eq (buf : Buffer) (i : Nat) :
    lacksLineEnd? buf i = some (decide (buf.size < i + lineEndLength)) := by
  rw [lacksLineEnd?, subWords?]
  split_ifs with hi hle
  · rw [decide_eq_true (by omega)]
  · rw [Option.map_some, Option.some_inj, decide_eq_decide]
    omega
  · omega

namespace Chunked

/-- Reads the data of a chunk that start at `start`, in words. Here a size is added that a peer has
declared, and a sum that is no word is a refusal. -/
def readDataInWords? (c : Chunked) (buf : Buffer) (lineEnd start size : Nat) :
    Option (Except ChunkError Step) :=
  match addWords? start size with
  | none => some (.error (.sizeOverflow size))
  | some stop =>
    (lacksLineEnd? buf stop).bind fun
      | true => some (.ok (.rest (.waiting { c with searched := lineEnd })))
      | false =>
        (addWords? stop lineEndLength).bind fun markStop =>
          (slice? buf stop markStop).bind fun mark =>
            if mark ≠ lineEndBytes then some (.error .unterminated)
            else
              (slice? buf start stop).bind fun data =>
                (addWords? stop lineEndLength).map fun next =>
                  .ok (.next { c.continueAt next with chunks := data :: c.chunks })

/-- Reads one line that ends at `lineEnd`, with its data if it opens a chunk, in words. -/
def afterLineInWords? (c : Chunked) (buf : Buffer) (lineEnd : Nat) :
    Option (Except ChunkError Step) :=
  if c.trailing then
    (addWords? lineEnd lineEndLength).map fun next =>
      if lineEnd = c.position then .ok (.rest (.finished c.data next))
      else .ok (.next (c.continueAt next))
  else
    (slice? buf c.position lineEnd).bind fun line =>
      match sizeOfLine line with
      | .error e => some (.error e)
      | .ok size =>
        (addWords? lineEnd lineEndLength).bind fun start =>
          match size with
          | 0 => some (.ok (.next { c.continueAt start with trailing := true }))
          | size => c.readDataInWords? buf lineEnd start size

/-- Reads one line, with its data if it opens a chunk, in words. -/
def stepInWords? (c : Chunked) (buf : Buffer) : Option (Except ChunkError Step) :=
  (findLineEnd? buf (max c.position (c.searched - 1))).bind fun
    | none => some (.ok (.rest (.waiting { c with searched := buf.size })))
    | some lineEnd => c.afterLineInWords? buf lineEnd

theorem comesTo_readData (c : Chunked) (buf : Buffer) (lineEnd size : Nat) :
    ComesTo buf (c.readDataInWords? buf lineEnd (lineEnd + lineEndLength) size)
      (c.readData buf lineEnd size) := by
  have hstart : lineEnd + lineEndLength ≤ dataStop lineEnd size := Nat.le_add_right _ _
  rw [readDataInWords?, addWords?, readData, ← dataStop]
  by_cases hword : dataStop lineEnd size < wordSize
  · rw [if_pos hword, if_neg (Nat.not_le.2 hword)]
    simp only [lacksLineEnd?_eq, Option.bind_some]
    by_cases hcut : buf.size < dataStop lineEnd size + lineEndLength
    · rw [if_pos hcut, decide_eq_true hcut]
      exact .result _
    · have hsize := Nat.le_of_not_lt hcut
      rw [if_neg hcut, decide_eq_false hcut]
      refine (comesTo_addWords hsize).bind ?_
      refine (comesTo_slice (Nat.le_add_right _ _) hsize).bind ?_
      split_ifs with hmark
      · exact .result _
      · exact (comesTo_slice hstart (Nat.le_of_add_right_le hsize)).bind
          ((comesTo_addWords hsize).map _)
  · rw [if_neg hword, if_pos (Nat.le_of_not_lt hword)]
    exact .result _

theorem comesTo_afterLine (c : Chunked) (hposition : c.position ≤ lineEnd)
    (hline : lineEnd + lineEndLength ≤ buf.size) :
    ComesTo buf (c.afterLineInWords? buf lineEnd) (c.afterLine buf lineEnd) := by
  have hnext := comesTo_addWords hline
  rw [afterLineInWords?, afterLine]
  by_cases htrailing : c.trailing = true
  · rw [if_pos htrailing, if_pos htrailing]
    exact hnext.map _
  · rw [if_neg htrailing, if_neg htrailing]
    refine (comesTo_slice hposition (Nat.le_of_add_right_le hline)).bind ?_
    cases sizeOfLine (bytesBetween buf c.position lineEnd) with
    | error e => exact .result _
    | ok size =>
      refine hnext.bind ?_
      cases size with
      | zero => exact .result _
      | succ k => exact comesTo_readData c buf lineEnd (k + 1)

/-- **A step in words** comes to the step. -/
theorem comesTo_step (c : Chunked) (buf : Buffer) :
    ComesTo buf (c.stepInWords? buf) (c.step buf) := by
  rw [stepInWords?, step_eq]
  refine (comesTo_findLineEnd buf _).bind ?_
  cases hfind : findFrom lineEndAt? buf (max c.position (c.searched - 1)) with
  | none => exact .result _
  | some found =>
    obtain ⟨lineEnd, ⟨⟩⟩ := found
    have hline := findFrom_lineEndAt? hfind
    exact comesTo_afterLine c (by omega) hline.2

/-- Reads as many lines and chunks as a buffer holds, in words. -/
def resumeInWords? (c : Chunked) (buf : Buffer) : Option (Except ChunkError Progress) :=
  match _h : c.stepInWords? buf with
  | none => none
  | some (.error e) => some (.error e)
  | some (.ok (.rest p)) => some (.ok p)
  | some (.ok (.next d)) => d.resumeInWords? buf
termination_by buf.size - c.position
decreasing_by
  have := lt_position_of_step ((c.comesTo_step buf).eq_of_eq_some _h)
  omega

/-- **A run in words** comes to the run. -/
theorem comesTo_resume (c : Chunked) (buf : Buffer) :
    ComesTo buf (c.resumeInWords? buf) (c.resume buf) := by
  -- along the steps in words, each of which is the step
  have hstep := c.comesTo_step buf
  fun_induction resumeInWords? c buf with
  | case1 c h => exact .tooLarge (hstep.le_of_eq_none h)
  | case2 c e h =>
    rw [resume_of_error (hstep.eq_of_eq_some h)]
    exact .result _
  | case3 c p h =>
    rw [resume_of_rest (hstep.eq_of_eq_some h)]
    exact .result _
  | case4 c d h ih =>
    rw [resume_of_next (hstep.eq_of_eq_some h)]
    exact ih (d.comesTo_step buf)

end Chunked

/-! ### Requests -/

namespace Decoder

theorem any_isStray_iff : buf[i]?.any isStray = true ↔ i < buf.size ∧ properAt? buf i = none := by
  rw [properAt?]
  by_cases hi : i < buf.size
  · simp [hi]
  · simp [hi]

/-- The position behind the stray bytes at a position, in words. -/
def skipStrayInWords? (buf : Buffer) (i : Nat) : Option Nat :=
  if _h : buf[i]?.any isStray = true then
    match _hnext : addWords? i 1 with
    | none => none
    | some next => skipStrayInWords? buf next
  else some i
termination_by buf.size - i
decreasing_by
  have hi := (any_isStray_iff.1 _h).1
  have hnext := (addWords?_eq_some_iff.1 _hnext).1
  omega

/-- The decoder behind a head, in words. -/
def afterHeadInWords? (head : List UInt8) (stop : Nat) (blank : BlankLine) :
    Option (Except RequestError Decoder) :=
  match Head.parseBytes head with
  | .error e => some (.error e)
  | .ok request =>
    match Framing.ofFields request.fields with
    | .error e => some (.error e)
    | .ok framing =>
      match h : addWords? stop blank.length with
      | none => none
      | some start =>
        some (.ok (.body request start (pos_of_addWords? blank.length_pos h)
          (.start framing start)))

/-- Looks for the end of the head, and reads the head if it is there, in words. -/
def readHeadInWords? (stray searched : Nat) (buf : Buffer) :
    Option (Except RequestError Decoder) :=
  (findBlankLine? buf (max stray (searched - 3))).bind fun
    | none => some (.ok (.head stray buf.size))
    | some (stop, blank) =>
      (slice? buf stray stop).bind fun head => afterHeadInWords? head stop blank

/-- Reads the body of a request, in words. Here a size is added that a peer has declared; a body
whose end is no word is not there. -/
def readBodyInWords? (request : Request) (start : Nat) (start_pos : 0 < start)
    (progress : BodyProgress) (buf : Buffer) : Option (Decoding × Decoder) :=
  match progress with
  | .length size =>
    match (addWords? start size).filter fun stop => stop ≤ buf.size with
    | some stop =>
      (slice? buf start stop).map fun body => (.complete { request with body := body } stop, fresh)
    | none => some (.incomplete, .body request start start_pos progress)
  | .chunked c =>
    (c.resumeInWords? buf).map fun
      | .error e => (.refused (.badChunk e), fresh)
      | .ok (.waiting c) => (.incomplete, .body request start start_pos (.chunked c))
      | .ok (.finished data stop) => (.complete { request with body := data } stop, fresh)

/-- What a decoder makes of a buffer, and the decoder afterwards, in words; there is no result if
an operation has none. -/
def decodeInWords? (d : Decoder) (buf : Buffer) : Option (Decoding × Decoder) :=
  match d with
  | .head stray searched =>
    (skipStrayInWords? buf stray).bind fun stray =>
      (readHeadInWords? stray searched buf).bind fun
        | .error e => some (.refused e, fresh)
        | .ok (.head stray searched) => some (.incomplete, .head stray searched)
        | .ok (.body request start start_pos progress) =>
          readBodyInWords? request start start_pos progress buf
  | .body request start start_pos progress => readBodyInWords? request start start_pos progress buf

theorem comesTo_skipStray (buf : Buffer) (i : Nat) :
    ComesTo buf (skipStrayInWords? buf i) (skipStray buf i) := by
  -- on the stray bytes from `i` on
  fun_induction skipStrayInWords? buf i with
  | case1 i h hnext =>
    have hi := (any_isStray_iff.1 h).1
    exact .tooLarge ((comesTo_addWords hi).le_of_eq_none hnext)
  | case2 i h next hnext ih =>
    obtain ⟨rfl, -⟩ := addWords?_eq_some_iff.1 hnext
    obtain ⟨hi, hproper⟩ := any_isStray_iff.1 h
    rwa [skipStray_succ hi hproper] at ih
  | case3 i h =>
    rw [skipStray_eq_self fun hstray => h (any_isStray_iff.2 hstray)]
    exact .result _

theorem afterHeadInWords?_eq (hword : buf.size < wordSize) {head : List UInt8} {stop : Nat}
    {blank : BlankLine} (hstop : stop + blank.length ≤ buf.size) :
    afterHeadInWords? head stop blank = some (afterHead head stop blank) := by
  have hadd := (comesTo_addWords hstop).eq_some hword
  rw [afterHeadInWords?, afterHead]
  cases Head.parseBytes head with
  | error e => rfl
  | ok request =>
    simp only
    cases Framing.ofFields request.fields with
    | error e => rfl
    | ok framing =>
      simp only
      split
      · next h => exact absurd (h.symm.trans hadd) (by simp)
      · next start h =>
        obtain rfl : start = stop + blank.length := Option.some_inj.1 (h.symm.trans hadd)
        rfl

theorem readHeadInWords?_eq (hword : buf.size < wordSize) (stray searched : Nat) :
    readHeadInWords? stray searched buf = readHead? stray searched buf := by
  rw [readHeadInWords?, (comesTo_findBlankLine buf _).eq_some hword, Option.bind_some, readHead?]
  cases hfind : findFrom blankLineAt? buf (max stray (searched - 3)) with
  | none => rfl
  | some found =>
    obtain ⟨stop, blank⟩ := found
    have hstop := findFrom_blankLineAt? hfind
    simp only [afterHeadInWords?_eq hword hstop.2]
    exact (Option.map_eq_bind ..).symm

/-- A length that is declared is added up only to an end in the buffer. -/
theorem filter_addWords?_eq (hword : buf.size < wordSize) (start size : Nat) :
    (addWords? start size).filter (fun stop => stop ≤ buf.size) =
      if start + size ≤ buf.size then some (start + size) else none := by
  rw [addWords?]
  by_cases hsize : start + size ≤ buf.size
  · rw [if_pos hsize, if_pos (by omega), Option.filter_some, if_pos (decide_eq_true hsize)]
  · rw [if_neg hsize]
    split_ifs
    · rw [Option.filter_some, if_neg (by simpa using hsize)]
    · rfl

theorem readBodyInWords?_eq (hword : buf.size < wordSize) (request : Request) {start : Nat}
    (start_pos : 0 < start) (progress : BodyProgress) :
    readBodyInWords? request start start_pos progress buf =
      readBody? request start start_pos progress buf := by
  cases progress with
  | length size =>
    rw [readBodyInWords?, readBody?, filter_addWords?_eq hword]
    split_ifs
    · rfl
    · rfl
  | chunked c =>
    rw [readBodyInWords?, readBody?, (c.comesTo_resume buf).eq_some hword]
    cases c.resume buf with
    | error e => rfl
    | ok p => cases p <;> rfl

/-- **Decoding in words** is decoding, from every state and in every buffer whose size is a word:
no sum, difference or slice is without a result. -/
theorem decodeInWords?_eq (hword : buf.size < wordSize) (d : Decoder) :
    d.decodeInWords? buf = some (d.decode buf) := by
  rw [← decode?_eq]
  cases d with
  | head stray searched =>
    rw [decodeInWords?, decode?, (comesTo_skipStray buf stray).eq_some hword, Option.bind_some,
      readHeadInWords?_eq hword]
    cases readHead? (skipStray buf stray) searched buf with
    | none => rfl
    | some outcome =>
      rcases outcome with e | ⟨stray, searched⟩ | ⟨request, start, start_pos, progress⟩
      · rfl
      · rfl
      · exact readBodyInWords?_eq hword request start_pos progress
  | body request start start_pos progress =>
    rw [decodeInWords?, decode?, readBodyInWords?_eq hword]

end Decoder

/-! ### What is kept between calls -/

namespace Chunked

variable {c : Chunked}

/-- That the positions which are kept of a body are words. -/
def Fits (c : Chunked) : Prop := c.position < wordSize ∧ c.searched < wordSize

/-- That the positions at which reading a body stops are words. -/
def Progress.Fits : Progress → Prop
  | .waiting c => c.Fits
  | .finished _ stop => stop < wordSize

/-- That the positions which a step leaves are words. -/
def Step.Fits : Step → Prop
  | .next c => c.Fits
  | .rest p => p.Fits

theorem fits_readData {s : Step} (hword : buf.size < wordSize) (hc : c.Fits)
    (hline : lineEnd ≤ buf.size) (h : c.readData buf lineEnd size = .ok s) : s.Fits := by
  rw [readData] at h
  split_ifs at h with hover hcut hmark
  · obtain rfl := Except.ok.inj h
    exact ⟨hc.1, hline.trans_lt hword⟩
  · obtain rfl := Except.ok.inj h
    have hnext : dataStop lineEnd size + lineEndLength < wordSize := by omega
    exact ⟨hnext, hnext⟩

theorem fits_afterLine {s : Step} (hword : buf.size < wordSize) (hc : c.Fits)
    (hline : lineEnd + lineEndLength ≤ buf.size) (h : c.afterLine buf lineEnd = .ok s) :
    s.Fits := by
  have hnext : lineEnd + lineEndLength < wordSize := by omega
  rw [afterLine] at h
  split_ifs at h
  · obtain rfl := Except.ok.inj h
    exact hnext
  · obtain rfl := Except.ok.inj h
    exact ⟨hnext, hnext⟩
  · split at h
    · simp at h
    · obtain rfl := Except.ok.inj h
      exact ⟨hnext, hnext⟩
    · exact fits_readData hword hc (Nat.le_of_add_right_le hline) h

/-- A step keeps words. -/
theorem fits_step {s : Step} (hword : buf.size < wordSize) (hc : c.Fits)
    (h : c.step buf = .ok s) : s.Fits := by
  rw [step_eq] at h
  cases hfind : findFrom lineEndAt? buf (max c.position (c.searched - 1)) with
  | none =>
    rw [hfind] at h
    obtain rfl := Except.ok.inj h
    exact ⟨hc.1, hword⟩
  | some found =>
    obtain ⟨lineEnd, ⟨⟩⟩ := found
    rw [hfind] at h
    exact fits_afterLine hword hc (findFrom_lineEndAt? hfind).2 h

/-- A run keeps words. -/
theorem fits_resume {p : Progress} (hword : buf.size < wordSize) (hc : c.Fits)
    (h : c.resume buf = .ok p) : p.Fits := by
  -- along the steps, each of which keeps words
  fun_induction resume c buf with
  | case1 => simp at h
  | case2 c q hstep =>
    obtain rfl := Except.ok.inj h
    exact fits_step hword hc hstep
  | case3 c d hstep ih => exact ih (fits_step hword hc hstep) h

end Chunked

/-- That what is kept of a body are words. -/
def BodyProgress.Fits : BodyProgress → Prop
  | .length size => size < wordSize
  | .chunked c => c.Fits

/-- A length that a head declares is a word. -/
theorem Framing.lt_of_ofFields {fs : Fields} (h : ofFields fs = .ok (.length size)) :
    size < wordSize := by
  rw [ofFields] at h
  split at h
  · simp only at h
    split_ifs at h
    simp at h
  · split at h
    · split at h
      · next hread =>
        obtain rfl := Framing.length.inj (Except.ok.inj h)
        exact lt_of_readNumeral hread
      · simp at h
    · obtain rfl := Framing.length.inj (Except.ok.inj h)
      decide

namespace Decoder

/-- That the positions and sizes which a decoder keeps are words. -/
def Fits : Decoder → Prop
  | .head stray searched => stray < wordSize ∧ searched < wordSize
  | .body _ start _ progress => start < wordSize ∧ progress.Fits

theorem fits_fresh : fresh.Fits := ⟨by decide, by decide⟩

theorem fits_decode_body (hword : buf.size < wordSize) {request : Request} {start : Nat}
    {start_pos : 0 < start} {progress : BodyProgress}
    (hd : (body request start start_pos progress).Fits) :
    ((body request start start_pos progress).decode buf).2.Fits := by
  cases progress with
  | length size =>
    rw [decode_length]
    split_ifs
    · exact fits_fresh
    · exact hd
  | chunked c =>
    rw [decode_chunked]
    cases hresume : c.resume buf with
    | error e => exact fits_fresh
    | ok p =>
      cases p with
      | waiting w => exact ⟨hd.1, Chunked.fits_resume hword hd.2 hresume⟩
      | finished data stop => exact fits_fresh

/-- **Decoding keeps words**, whatever it kept before was of which buffer. -/
theorem fits_decode (hword : buf.size < wordSize) {d : Decoder} (hd : d.Fits) :
    (d.decode buf).2.Fits := by
  cases d with
  | body request start start_pos progress => exact fits_decode_body hword hd
  | head stray searched =>
    cases hfind : findFrom blankLineAt? buf (max (skipStray buf stray) (searched - 3)) with
    | none =>
      rw [decode_head_of_find_none hfind]
      exact ⟨(skipStray_le buf stray).trans_lt (Nat.max_lt.2 ⟨hd.1, hword⟩), hword⟩
    | some found =>
      obtain ⟨stop, blank⟩ := found
      have hstop := (findFrom_blankLineAt? hfind).2
      rw [decode_head_of_find_some hfind, decodeBehind]
      cases hhead : afterHead (bytesBetween buf (skipStray buf stray) stop) stop blank with
      | error e => exact fits_fresh
      | ok d =>
        obtain ⟨request, framing, rfl, -, hframing⟩ := eq_body_of_afterHead hhead
        have hstart : stop + blank.length < wordSize := by omega
        refine fits_decode_body hword ⟨hstart, ?_⟩
        cases framing with
        | length size => exact Framing.lt_of_ofFields hframing
        | chunked => exact ⟨hstart, hstart⟩

/-! ### Calls one after the other -/

/-- What the decoder, in words, makes of the buffer of call `k` when it is shown buffers in turn,
and the decoder afterwards. -/
def callInWords? (buffers : Nat → Buffer) : Nat → Option (Decoding × Decoder)
  | 0 => fresh.decodeInWords? (buffers 0)
  | k + 1 => (callInWords? buffers k).bind fun last => last.2.decodeInWords? (buffers (k + 1))

variable {buffers : Nat → Buffer} {k : Nat}

theorem callInWords?_eq (hword : ∀ j ≤ k, (buffers j).size < wordSize) :
    callInWords? buffers k = some (answer buffers k, beforeCall buffers (k + 1)) := by
  induction k with
  | zero => exact decodeInWords?_eq (hword 0 (Nat.le_refl 0)) fresh
  | succ k ih =>
    rw [callInWords?, ih fun j hj => hword j (Nat.le_succ_of_le hj), Option.bind_some]
    exact decodeInWords?_eq (hword (k + 1) (Nat.le_refl _)) _

theorem fits_beforeCall (hword : ∀ j < k, (buffers j).size < wordSize) :
    (beforeCall buffers k).Fits := by
  induction k with
  | zero => exact fits_fresh
  | succ k ih =>
    exact fits_decode (hword k (Nat.lt_succ_self k)) (ih fun j hj => hword j (by omega))

/-- **The decoder never fails.** Whatever buffers it is shown in turn, be they extended, cut or
changed from one call to the next, as long as their sizes are words every call has a result in
words, and it is the result of decoding; what is kept for the next call are words; and a request
occupies no more bytes than the buffer of its call has. -/
theorem decodes_in_words (hword : ∀ j ≤ k, (buffers j).size < wordSize) :
    callInWords? buffers k = some (answer buffers k, beforeCall buffers (k + 1)) ∧
      (beforeCall buffers (k + 1)).Fits ∧
      ∀ r n, answer buffers k = .complete r n → n ≤ (buffers k).size :=
  ⟨callInWords?_eq hword, fits_beforeCall fun j hj => hword j (Nat.le_of_lt_succ hj),
    fun _ _ h => (consumed_of_decode h).2⟩

/-- Buffers that take bytes away from a decoder inside a chunked body, then hold the largest size of
all where it goes on reading, and then another request. -/
def brokenBuffers : Nat → Buffer
  | 0 => ⟨Utf8.bytesOf "POST / HTTP/1.1\nTransfer-Encoding: chunked\n\n3\r\nabc\r\n1"⟩
  | 1 => ⟨Utf8.bytesOf "GET"⟩
  | 2 => ⟨List.replicate 52 0 ++ Utf8.bytesOf "ffffffffffffffff\r\nabc"⟩
  | _ => ⟨Utf8.bytesOf "\r\nGET / HTTP/1.1\n\nPO"⟩

/-- The decoder waits without the bytes, refuses the size, and begins anew. -/
theorem decodes_in_words_brokenBuffers :
    (∀ j ≤ 3, (brokenBuffers j).size < wordSize) ∧
      callInWords? brokenBuffers 1 = some (.incomplete, beforeCall brokenBuffers 2) ∧
      callInWords? brokenBuffers 2 =
        some (.refused (.badChunk (.sizeOverflow 0xffffffffffffffff)), fresh) ∧
      (beforeCall brokenBuffers 3).Fits ∧ 18 ≤ (brokenBuffers 3).size := by
  have hsize : ∀ j ≤ 3, (brokenBuffers j).size < wordSize := by decide +kernel
  have hwait : answer brokenBuffers 1 = .incomplete := by decide +kernel
  have hover : answer brokenBuffers 2 =
      .refused (.badChunk (.sizeOverflow 0xffffffffffffffff)) := by decide +kernel
  have hrequest : answer brokenBuffers 3 =
      .complete { method := .get, target := "/", version := .http11, fields := ∅ } 18 := by
    decide +kernel
  have hdecided : answer brokenBuffers 2 ≠ .incomplete := by simp [hover]
  have hfresh : beforeCall brokenBuffers 3 = fresh := decoder_of_decode hdecided
  refine ⟨hsize, ?_, ?_, ?_, ?_⟩
  · rw [(decodes_in_words fun j hj => hsize j (by omega)).1, hwait]
  · rw [(decodes_in_words fun j hj => hsize j (by omega)).1, hover, hfresh]
  · exact (decodes_in_words fun j hj => hsize j (by omega)).2.1
  · exact (decodes_in_words hsize).2.2 _ _ hrequest

end Decoder

end HttpEngine
