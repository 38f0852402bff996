import HttpEngine.Proofs.Intake.DecoderGrowth
import HttpEngine.Proofs.Text.Utf8
import Mathlib.Data.List.TakeWhile
/-!
# Where a head ends

The end of a head is decided twice. The decoder searches the bytes for a blank line, CR LF CR LF or
LF LF; and the head before it is then read line by line, where an empty line ends the reading. A
line may end with LF or with CR LF, so an empty line may also show as **LF CR LF**, which the search
does not look for.

The span of a head (`HeadSpan`) lies between the stray line endings and the blank line that is
found. It holds no two line feeds in a row (`HeadSpan.not_lf_lf`), so its text has an empty line
just when its bytes hold LF CR LF (`HeadSpan.nil_mem_lines_iff`). Without it every line is read as a
field; with it the lines behind the empty one are consumed unread, and there is one at least
(`Decoding.reads_whole_head_iff`).
-/

namespace HttpEngine

open Text

/-! ### Reading every line -/

namespace Head

/-- Fields with those of every header line added. No line ends the reading. -/
def readEveryField (fs : Fields) : List (List Char) → Except RequestError Fields
  | [] => .ok fs
  | line :: rest =>
    match fieldLine line with
    | .error e => .error e
    | .ok (name, value) =>
      match addField fs name value with
      | .error e => .error e
      | .ok fs => readEveryField fs rest

/-- An empty line is no field. -/
theorem fieldLine_nil : fieldLine [] = .error .malformedField := rfl

/-- Reading fields reads every line up to the first empty one. -/
theorem readFields_eq (fs : Fields) (ls : List (List Char)) :
    readFields fs ls = readEveryField fs (ls.takeWhile fun line => !line.isEmpty) := by
  induction ls generalizing fs with
  | nil => rfl
  | cons line rest ih =>
    rw [readFields]
    by_cases hempty : line.isEmpty = true
    · rw [if_pos hempty, List.takeWhile_cons_of_neg (by simp [hempty])]
      rfl
    · rw [if_neg hempty, List.takeWhile_cons_of_pos (by simp [hempty]), readEveryField]
      cases fieldLine line with
      | error e => rfl
      | ok field =>
        dsimp only
        cases addField fs field.1 field.2 with
        | error e => rfl
        | ok fs => exact ih fs

/-- What is in front of the first empty line, and something behind it. -/
theorem exists_first_nil {ls front rest : List (List Char)} (h : ls = front ++ [] :: rest)
    (hrest : rest ≠ []) :
    ∃ behind, ls = ls.takeWhile (fun line => !line.isEmpty) ++ [] :: behind ∧ behind ≠ [] := by
  induction ls generalizing front with
  | nil => simp at h
  | cons line ls ih =>
    cases line with
    | nil =>
      refine ⟨ls, rfl, ?_⟩
      cases front with
      | nil =>
        obtain rfl := (List.cons.inj h).2
        exact hrest
      | cons l front =>
        obtain rfl := (List.cons.inj h).2
        simp
    | cons c cs =>
      cases front with
      | nil => simp at h
      | cons l front =>
        obtain ⟨behind, hbehind, hne⟩ := ih (List.cons.inj h).2
        refine ⟨behind, ?_, hne⟩
        rw [List.takeWhile_cons_of_pos (by simp), List.cons_append, ← hbehind]

/-- An empty line among those that must all be read is refused. -/
theorem not_mem_of_readEveryField {ls : List (List Char)} {fs result : Fields}
    (h : readEveryField fs ls = .ok result) : [] ∉ ls := by
  induction ls generalizing fs with
  | nil => exact List.not_mem_nil
  | cons line rest ih =>
    rw [readEveryField] at h
    split at h
    · simp at h
    · next name value hline =>
      split at h
      · simp at h
      · next fs' hadd =>
        intro hmem
        rcases List.mem_cons.1 hmem with rfl | hmem
        · simp [fieldLine_nil] at hline
        · exact ih h hmem

/-- Every line is read exactly if none is empty. -/
theorem readEveryField_eq_iff {ls : List (List Char)} {fs result : Fields}
    (h : readFields fs ls = .ok result) : readEveryField fs ls = .ok result ↔ [] ∉ ls := by
  refine ⟨not_mem_of_readEveryField, fun hnone => ?_⟩
  have hall : ls.takeWhile (fun line => !line.isEmpty) = ls := by
    refine List.takeWhile_eq_self_iff.2 fun line hline => ?_
    cases line with
    | nil => exact absurd hline hnone
    | cons c cs => rfl
  rw [← h, readFields_eq, hall]

/-- A head that is accepted has a request line, and the lines behind it give the fields. -/
theorem of_parse {text : List Char} {request : Request} (h : parse text = .ok request) :
    ∃ first rest, lines text = first :: rest ∧ first ≠ [] ∧
      readFields ∅ rest = .ok request.fields := by
  rw [parse] at h
  split at h
  · simp at h
  · next first rest hlines =>
    split at h
    · simp at h
    · next method target version hline =>
      split at h
      · simp at h
      · next fields hfields =>
        obtain rfl := Except.ok.inj h
        refine ⟨first, rest, hlines, ?_, hfields⟩
        rintro rfl
        simp [requestLine, words] at hline

/-- The bytes of a head that is accepted are a text. -/
theorem of_parseBytes {head : List UInt8} {request : Request}
    (h : parseBytes head = .ok request) :
    ∃ text, Utf8.decode head = .ok text ∧ parse text = .ok request := by
  rw [parseBytes] at h
  split at h
  · simp at h
  · next text htext => exact ⟨text, htext, h⟩

end Head

/-! ### The span of a head -/

/-- A blank line begins with a byte that may stray. -/
theorem BlankLine.bytes_eq_cons (m : BlankLine) :
    ∃ b rest, m.bytes = b :: rest ∧ Decoder.isStray b = true := by
  cases m with
  | crlf => exact ⟨13, [10, 13, 10], rfl, rfl⟩
  | lf => exact ⟨10, [10], rfl, rfl⟩

/-- Where the head of a request lies in a buffer: behind the stray line endings, up to the first
blank line. -/
structure HeadSpan (buf : Buffer) where
  stop : Nat
  blank : BlankLine
  found : findFrom blankLineAt? buf (Decoder.skipStray buf 0) = some (stop, blank)

namespace HeadSpan

variable {buf : Buffer} (span : HeadSpan buf)

/-- The bytes of a head. -/
def bytes : List UInt8 := bytesBetween buf (Decoder.skipStray buf 0) span.stop

/-- Where the body starts. -/
def bodyStart : Nat := span.stop + span.blank.length

/-- That a body is framed as declared, and ends at a position. -/
def Frames (framing : Framing) (body : List UInt8) (stop : Nat) : Prop :=
  match framing with
  | .length size =>
    stop = span.bodyStart + size ∧ stop ≤ buf.size ∧ body = bytesBetween buf span.bodyStart stop
  | .chunked => (Chunked.start span.bodyStart).resume buf = .ok (.finished body stop)

/-- The first blank line is one. -/
instance : Subsingleton (HeadSpan buf) := by
  refine ⟨fun span other => ?_⟩
  obtain ⟨stop, blank, found⟩ := span
  obtain ⟨stop', blank', found'⟩ := other
  obtain ⟨rfl, rfl⟩ := Prod.mk.inj (Option.some.inj (found.symm.trans found'))
  rfl

theorem length_bytes : span.bytes.length = span.stop - Decoder.skipStray buf 0 := by
  have hstop := findFrom_blankLineAt? span.found
  exact length_bytesBetween (by omega)

/-- Behind the stray line endings stand the head and its blank line. -/
theorem isPrefix_drop :
    span.bytes ++ span.blank.bytes <+: buf.toList.drop (Decoder.skipStray buf 0) := by
  obtain ⟨hstart, -, hblank, -⟩ := findFrom_eq_some_iff.1 span.found
  have hstands := standsAt_iff.1 (standsAt_of_blankLineAt? hblank)
  have hstop : Decoder.skipStray buf 0 + span.bytes.length = span.stop := by
    rw [span.length_bytes, Nat.add_sub_cancel' hstart]
  have hbehind : span.blank.bytes <+:
      buf.toList.drop (Decoder.skipStray buf 0 + span.bytes.length) := by
    rw [hstop]
    exact hstands
  exact append_prefix_drop (isPrefix_bytesBetween _ _ _) hbehind

/-- **The blank line is the first.** None stands among the bytes of the head. -/
theorem length_le_of_blankLine (m : BlankLine) {front : List UInt8}
    (h : front ++ m.bytes <+: span.bytes ++ span.blank.bytes) :
    span.bytes.length ≤ front.length := by
  obtain ⟨hstart, hstop, -, hbefore⟩ := findFrom_eq_some_iff.1 span.found
  by_contra hlt
  have hlen := span.length_bytes
  have hnone := hbefore (Decoder.skipStray buf 0 + front.length) (by omega) (by omega)
  have hstands : standsAt buf (Decoder.skipStray buf 0 + front.length) m.bytes = true := by
    obtain ⟨rest, hrest⟩ := h.trans span.isPrefix_drop
    rw [standsAt_iff, ← List.drop_drop, ← hrest, List.append_assoc, List.drop_left]
    exact List.prefix_append _ _
  exact absurd (hnone.symm.trans (blankLineAt?_eq_some_iff.2 hstands)) (by simp)

/-- No line feed follows another in a head. -/
theorem not_lf_lf : ¬ [10, 10] <:+: span.bytes := by
  rintro ⟨front, rest, hbytes⟩
  have hlies : front ++ BlankLine.lf.bytes <+: span.bytes ++ span.blank.bytes :=
    ⟨rest ++ span.blank.bytes, by rw [← hbytes, ← List.append_assoc]; rfl⟩
  have hle := span.length_le_of_blankLine .lf hlies
  rw [← hbytes, List.length_append, List.length_append] at hle
  simp only [List.length_cons, List.length_nil] at hle
  omega

/-- Behind LF CR LF a head goes on. -/
theorem not_lf_cr_lf_at_end : ¬ [10, 13, 10] <:+ span.bytes := by
  rintro ⟨front, hbytes⟩
  have hlen : span.bytes.length = front.length + 3 := by
    rw [← hbytes, List.length_append]
    rfl
  cases hblank : span.blank with
  | lf =>
    have hlies : (front ++ [10, 13]) ++ BlankLine.lf.bytes <+: span.bytes ++ span.blank.bytes :=
      ⟨[10], by rw [← hbytes, hblank]; simp [BlankLine.bytes]⟩
    have hle := span.length_le_of_blankLine .lf hlies
    simp only [List.length_append, List.length_cons, List.length_nil] at hle
    omega
  | crlf =>
    have hlies : (front ++ [10]) ++ BlankLine.crlf.bytes <+: span.bytes ++ span.blank.bytes :=
      ⟨[13, 10], by rw [← hbytes, hblank]; simp [BlankLine.bytes]⟩
    have hle := span.length_le_of_blankLine .crlf hlies
    simp only [List.length_append, List.length_cons, List.length_nil] at hle
    omega

/-- A head begins with a byte that is no line ending. -/
theorem bytes_eq_cons : ∃ b rest, span.bytes = b :: rest ∧ Decoder.isStray b = false := by
  obtain ⟨hstart, hstop, hblank, -⟩ := findFrom_eq_some_iff.1 span.found
  obtain ⟨b, hfind⟩ := Decoder.find_of_skipStray_lt (Nat.lt_of_le_of_lt hstart hstop)
  obtain ⟨-, -, hproper, -⟩ := findFrom_eq_some_iff.1 hfind
  obtain ⟨hb, hstray⟩ := Option.filter_eq_some_iff.1 hproper
  have hfirst : ∃ more, buf.toList.drop (Decoder.skipStray buf 0) = b :: more := by
    obtain ⟨hlt, hget⟩ := Array.getElem?_eq_some_iff.1 hb
    refine ⟨buf.toList.drop (Decoder.skipStray buf 0 + 1), ?_⟩
    rw [List.drop_eq_getElem_cons (by simpa using hlt), Array.getElem_toList, hget]
  obtain ⟨more, hmore⟩ := hfirst
  obtain ⟨rest, hrest⟩ := span.isPrefix_drop
  rw [hmore] at hrest
  cases hhead : span.bytes with
  | nil =>
    -- then the blank line would begin with a byte that is no line ending
    obtain ⟨c, behind, hblank', hc⟩ := span.blank.bytes_eq_cons
    rw [hhead, hblank'] at hrest
    obtain ⟨rfl, -⟩ := List.cons.inj hrest
    simp [hc] at hstray
  | cons c rest' =>
    rw [hhead] at hrest
    obtain ⟨rfl, -⟩ := List.cons.inj hrest
    exact ⟨c, rest', rfl, by simpa using hstray⟩

/-- **An empty line shows as LF CR LF.** -/
theorem nil_mem_lines_iff {text : List Char} (h : Utf8.decode span.bytes = .ok text) :
    [] ∈ lines text ↔ [10, 13, 10] <:+: span.bytes := by
  obtain ⟨b, rest, hbytes, hb⟩ := span.bytes_eq_cons
  have hcr : 13 ≠ b := by
    rintro rfl
    simp [Decoder.isStray] at hb
  have hlf : 10 ≠ b := by
    rintro rfl
    simp [Decoder.isStray] at hb
  have hfront : ∀ pattern, ¬ 10 :: pattern <+: span.bytes ∧ ¬ 13 :: pattern <+: span.bytes := by
    intro pattern
    rw [hbytes, List.cons_prefix_cons, List.cons_prefix_cons]
    exact ⟨fun hlies => hlf hlies.1, fun hlies => hcr hlies.1⟩
  rw [Utf8.nil_mem_lines_iff_bytes h, List.infix_cons_iff, List.infix_cons_iff,
    List.cons_prefix_cons, List.cons_prefix_cons, and_iff_right rfl, and_iff_right rfl,
    or_iff_right (hfront []).1, or_iff_right span.not_lf_lf, or_iff_right (hfront [10]).2]

/-- Behind an empty line a head has more lines. -/
theorem lines_eq_of_lf_cr_lf {text : List Char} (h : Utf8.decode span.bytes = .ok text)
    (hmixed : [10, 13, 10] <:+: span.bytes) :
    ∃ front rest, lines text = front ++ [] :: rest ∧ rest ≠ [] := by
  obtain ⟨front, rest, rfl⟩ := (Utf8.lf_cr_lf_infix_iff h).1 hmixed
  have hrest : rest ≠ [] := by
    rintro rfl
    refine span.not_lf_cr_lf_at_end ⟨Utf8.encode front, ?_⟩
    rw [← Utf8.encode_of_decode h, List.append_nil, Utf8.encode_append]
    rfl
  refine ⟨(front.splitOn '\n').map dropReturn, lines rest, ?_, mt lines_eq_nil_iff.1 hrest⟩
  have hempty : lines ('\r' :: '\n' :: rest) = [] :: lines rest := lines_append_cons ['\r'] rest
  rw [List.append_assoc, List.cons_append, lines_append_cons, List.cons_append,
    List.singleton_append, hempty]

end HeadSpan

/-! ### What is read of a head -/

namespace Decoding

variable {bytes : List UInt8} {request : Request} {n : Nat}

/-- A request that is decoded has a head, which opens it, and a body framed by its fields. -/
theorem exists_headSpan (h : ofBytes bytes = .complete request n) :
    ∃ (span : HeadSpan bytes.toArray) (opened : Request) (framing : Framing),
      Head.parseBytes span.bytes = .ok opened ∧ opened.fields = request.fields ∧
      Framing.ofFields request.fields = .ok framing ∧ span.Frames framing request.body n := by
  rw [ofBytes] at h
  cases hfind : findFrom blankLineAt? bytes.toArray
      (max (Decoder.skipStray bytes.toArray 0) (0 - 3)) with
  | none =>
    rw [Decoder.fresh, Decoder.decode_head_of_find_none hfind] at h
    simp at h
  | some found =>
    obtain ⟨stop, blank⟩ := found
    rw [Decoder.fresh, Decoder.decode_head_of_find_some hfind, Decoder.decodeBehind] at h
    rw [Nat.zero_sub, Nat.max_zero] at hfind
    split at h
    · simp at h
    · next d hbehind =>
      obtain ⟨opened, framing, rfl, hparse, hframing⟩ := Decoder.eq_body_of_afterHead hbehind
      refine ⟨⟨stop, blank, hfind⟩, opened, framing, hparse, ?_⟩
      cases framing with
      | length size =>
        rw [BodyProgress.start, Decoder.decode_length] at h
        split at h
        · next hsize =>
          obtain ⟨rfl, rfl⟩ := Decoding.complete.inj h
          exact ⟨rfl, hframing, rfl, hsize, rfl⟩
        · simp at h
      | chunked =>
        rw [BodyProgress.start, Decoder.decode_chunked] at h
        split at h
        · simp at h
        · simp at h
        · next data last hresume =>
          obtain ⟨rfl, rfl⟩ := Decoding.complete.inj h
          exact ⟨rfl, hframing, hresume⟩

/-- **The two ends of a head agree unless LF CR LF lies in it.** Whatever is decoded, the bytes that
are consumed end with the body that the fields frame; and the head is read as a whole, no line of
it empty and each read as a field, exactly if its bytes do not hold LF CR LF. If they do, the fields
are those in front of an empty line, and at least one line behind it is consumed unread. -/
theorem reads_whole_head_iff (h : ofBytes bytes = .complete request n) :
    ∃ (span : HeadSpan bytes.toArray) (text : List Char) (framing : Framing),
      Utf8.decode span.bytes = .ok text ∧ Framing.ofFields request.fields = .ok framing ∧
      span.Frames framing request.body n ∧
      ([] ∉ lines text ↔ ¬ [10, 13, 10] <:+: span.bytes) ∧
      (Head.readEveryField ∅ (lines text).tail = .ok request.fields ↔
        ¬ [10, 13, 10] <:+: span.bytes) ∧
      ([10, 13, 10] <:+: span.bytes →
        ∃ recorded swallowed, (lines text).tail = recorded ++ [] :: swallowed ∧
          Head.readEveryField ∅ recorded = .ok request.fields ∧ swallowed ≠ []) := by
  obtain ⟨span, opened, framing, hparse, hfields, hframing, hframes⟩ := exists_headSpan h
  obtain ⟨text, htext, hparse⟩ := Head.of_parseBytes hparse
  obtain ⟨first, rest, hlines, hfirst, hread⟩ := Head.of_parse hparse
  rw [hfields] at hread
  have hempty : [] ∈ rest ↔ [10, 13, 10] <:+: span.bytes := by
    rw [← span.nil_mem_lines_iff htext, hlines, List.mem_cons, or_iff_right hfirst.symm]
  refine ⟨span, text, framing, htext, hframing, hframes, not_congr (span.nil_mem_lines_iff htext),
    ?_, fun hmixed => ?_⟩
  · rw [hlines, List.tail_cons, Head.readEveryField_eq_iff hread, hempty]
  · obtain ⟨front, behind, hsplit, hbehind⟩ := span.lines_eq_of_lf_cr_lf htext hmixed
    rw [hlines] at hsplit
    cases front with
    | nil => exact absurd (List.cons.inj hsplit).1 hfirst
    | cons line front =>
      obtain ⟨swallowed, hrest, hswallowed⟩ :=
        Head.exists_first_nil (List.cons.inj hsplit).2 hbehind
      refine ⟨_, swallowed, by rw [hlines, List.tail_cons]; exact hrest, ?_, hswallowed⟩
      rw [← Head.readFields_eq, hread]

/-- A head whose lines end in both ways is read as a whole. -/
theorem reads_whole_head_bothEndings :
    ∃ (span : HeadSpan (Utf8.bytesOf "GET / HTTP/1.1\nhost: x\r\n\r\n").toArray)
      (text : List Char), Utf8.decode span.bytes = .ok text ∧ [] ∉ lines text ∧
        Head.readEveryField ∅ (lines text).tail = .ok (Fields.set ∅ "host" "x") := by
  have h : ofBytes (Utf8.bytesOf "GET / HTTP/1.1\nhost: x\r\n\r\n") = .complete
      { method := .get, target := "/", version := .http11, fields := Fields.set ∅ "host" "x" }
      26 := by
    decide +kernel
  obtain ⟨span, text, framing, htext, -, -, hempty, hread, -⟩ := reads_whole_head_iff h
  have hspan : span = ⟨22, .crlf, by decide +kernel⟩ := Subsingleton.elim _ _
  have hunmixed : ¬ [10, 13, 10] <:+: span.bytes := by
    rw [hspan]
    decide +kernel
  exact ⟨span, text, htext, hempty.2 hunmixed, hread.2 hunmixed⟩

/-- A request, and a second one behind a blank line that is LF CR LF. -/
def twoRequests : List UInt8 := Utf8.bytesOf "GET / HTTP/1.1\n\r\nGET /2 HTTP/1.1\r\n\r\n"

/-- **The second request is swallowed.** It is a request by itself, behind the seventeen bytes of
the first; but the first consumes all the bytes, for its head has an empty line inside. -/
theorem swallows_second_request :
    ∃ (first second : Request) (span : HeadSpan twoRequests.toArray) (text : List Char),
      ofBytes twoRequests = .complete first twoRequests.length ∧
      ofBytes (twoRequests.drop 17) = .complete second (twoRequests.length - 17) ∧
      Utf8.decode span.bytes = .ok text ∧ [] ∈ lines text ∧
      Head.readEveryField ∅ (lines text).tail ≠ .ok first.fields :=
  ⟨{ method := .get, target := "/", version := .http11, fields := ∅ },
    { method := .get, target := "/2", version := .http11, fields := ∅ },
    ⟨32, .crlf, by decide +kernel⟩, "GET / HTTP/1.1\n\r\nGET /2 HTTP/1.1".toList,
    by decide +kernel, by decide +kernel, by decide +kernel, by decide +kernel, by decide +kernel⟩

end Decoding

end HttpEngine
