import HttpEngine.Proofs.Intake.HeadEnd
import HttpEngine.Proofs.Intake.SentHead
import HttpEngine.Proofs.Text.Encoded
/-!
# Requests as they are sent

The bytes of a sent request are decoded to the request, and to nothing else, whatever bytes follow
(`SentRequest.ofBytes_render`): with its method, target, version, fields and body, and consuming
just its own bytes.

The blank line is found where it was put, and no earlier: a text that ends with a character which
is no line ending ends with a byte that no blank line has (`findFrom_blankLineAt?_encode`), so a
blank line that begins in the text lies in it as a whole, and then the text has an empty line. The
first byte is that of a method, so no byte is stray. What follows the head is not looked at before
the length of the body is known.
-/

namespace HttpEngine

open Text

/-- The blank line that two line endings make. -/
def LineEnding.blank : LineEnding → BlankLine
  | .crlf => .crlf
  | .lf => .lf

theorem LineEnding.encode_twice (e : LineEnding) :
    Utf8.encode (e.chars ++ e.chars) = e.blank.bytes := by
  cases e <;> decide

/-! ### Bytes that are no line endings -/

/-- Only the line endings have stray bytes. -/
theorem isStray_of_mem_encodeChar {c : Char} {b : UInt8} (hcr : c ≠ '\r') (hlf : c ≠ '\n')
    (hb : b ∈ String.utf8EncodeChar c) : Decoder.isStray b = false := by
  by_cases hsmall : c.val.toNat ≤ 0x7F
  · rw [Utf8.encodeChar_of_le hsmall, List.mem_singleton] at hb
    have h13 : b ≠ UInt8.ofNat '\r'.val.toNat := by
      rw [hb]
      exact mt (Utf8.ofNat_inj_of_le hsmall (by decide)).1 hcr
    have h10 : b ≠ UInt8.ofNat '\n'.val.toNat := by
      rw [hb]
      exact mt (Utf8.ofNat_inj_of_le hsmall (by decide)).1 hlf
    simpa [Decoder.isStray] using And.intro h13 h10
  · have hlarge := Utf8.le_of_mem_encodeChar hsmall hb
    rw [Decoder.isStray, Bool.or_eq_false_iff, beq_eq_false_iff_ne, beq_eq_false_iff_ne]
    constructor
    · rintro rfl
      exact absurd hlarge (by decide)
    · rintro rfl
      exact absurd hlarge (by decide)

/-- The last byte of a text is no stray one if its last character is no line ending. -/
theorem exists_last_byte {text : List Char} {c : Char} (h : text.getLast? = some c)
    (hcr : c ≠ '\r') (hlf : c ≠ '\n') :
    ∃ bytes b, Utf8.encode text = bytes ++ [b] ∧ Decoder.isStray b = false := by
  obtain ⟨front, rfl⟩ := List.getLast?_eq_some_iff.1 h
  have hne : String.utf8EncodeChar c ≠ [] := String.utf8EncodeChar_ne_nil
  refine ⟨Utf8.encode front ++ (String.utf8EncodeChar c).dropLast,
    (String.utf8EncodeChar c).getLast hne, ?_,
    isStray_of_mem_encodeChar hcr hlf (List.getLast_mem hne)⟩
  rw [List.append_assoc, List.dropLast_append_getLast, Utf8.encode_append, Utf8.encode_cons,
    Utf8.encode_nil, List.append_nil]

/-- A pattern of stray bytes that begins before a byte which is no stray one ends before it. -/
theorem isPrefix_of_stray {front pattern bytes rest : List UInt8} {b : UInt8}
    (hpattern : ∀ x ∈ pattern, Decoder.isStray x = true) (hb : Decoder.isStray b = false)
    (hlies : front ++ pattern <+: bytes ++ b :: rest) (hfront : front.length ≤ bytes.length) :
    front ++ pattern <+: bytes := by
  by_cases hle : (front ++ pattern).length ≤ bytes.length
  · exact List.prefix_of_prefix_length_le hlies (List.prefix_append _ _) hle
  · -- otherwise the byte is one of the pattern
    have hget : (front ++ pattern)[bytes.length]? = some b := by
      obtain ⟨more, hmore⟩ := hlies
      have hall : (front ++ pattern ++ more)[bytes.length]? = some b := by simp [hmore]
      rwa [List.getElem?_append_left (by omega)] at hall
    rw [List.getElem?_append_right hfront] at hget
    have hstray := hpattern b (List.mem_of_getElem? hget)
    simp [hb] at hstray

theorem BlankLine.isStray_of_mem {m : BlankLine} {b : UInt8} (h : b ∈ m.bytes) :
    Decoder.isStray b = true := by
  cases m <;> simp only [BlankLine.bytes, List.mem_cons, List.not_mem_nil, or_false] at h
  · rcases h with rfl | rfl | rfl | rfl <;> rfl
  · rcases h with rfl | rfl <;> rfl

/-! ### The blank line behind a text -/

/-- A text without empty lines holds no blank line. -/
theorem not_isInfix_blankLine {text : List Char} (h : [] ∉ lines text) (m : BlankLine) :
    ¬ m.bytes <:+: Utf8.encode text := by
  have hbytes := Utf8.nil_mem_lines_iff_bytes (Utf8.decode_encode text)
  intro hlies
  have hbehind : m.bytes <:+: 10 :: Utf8.encode text :=
    hlies.trans (List.suffix_cons _ _).isInfix
  refine h (hbytes.2 ?_)
  cases m with
  | lf => exact .inl hbehind
  | crlf => exact .inr (List.IsInfix.trans ⟨[13], [], rfl⟩ hbehind)

/-- **The first blank line.** Behind a text without empty lines, which ends with a character that
is no line ending, a blank line is found where it stands, whatever follows it. -/
theorem findFrom_blankLineAt?_encode {text : List Char} {c : Char} (hempty : [] ∉ lines text)
    (hlast : text.getLast? = some c) (hcr : c ≠ '\r') (hlf : c ≠ '\n') (blank : BlankLine)
    (behind : List UInt8) :
    findFrom blankLineAt? (Utf8.encode text ++ (blank.bytes ++ behind)).toArray 0 =
      some ((Utf8.encode text).length, blank) := by
  obtain ⟨bytes, b, hbytes, hb⟩ := exists_last_byte hlast hcr hlf
  have hpos := blank.length_pos
  refine findFrom_eq_some_iff.2 ⟨Nat.zero_le _, ?_, ?_, fun k _ hk => ?_⟩
  · simp only [List.size_toArray, List.length_append]
    rw [BlankLine.length] at hpos
    omega
  · rw [blankLineAt?_eq_some_iff, standsAt_iff, List.toList_toArray, List.drop_left]
    exact List.prefix_append _ _
  · cases hat : blankLineAt? (Utf8.encode text ++ (blank.bytes ++ behind)).toArray k with
    | none => rfl
    | some m =>
      have hstands := standsAt_iff.1 (blankLineAt?_eq_some_iff.1 hat)
      rw [List.toList_toArray] at hstands
      have hlies : (Utf8.encode text).take k ++ m.bytes <+:
          bytes ++ b :: (blank.bytes ++ behind) := by
        obtain ⟨more, hmore⟩ := hstands
        refine ⟨more, ?_⟩
        rw [List.append_assoc, hmore, ← List.take_append_of_le_length (Nat.le_of_lt hk),
          List.take_append_drop, hbytes, List.append_assoc, List.singleton_append]
      have hlength : ((Utf8.encode text).take k).length ≤ bytes.length := by
        have hsum := congrArg List.length hbytes
        simp only [List.length_append, List.length_singleton] at hsum
        rw [List.length_take]
        omega
      have hinside := isPrefix_of_stray (fun _ => BlankLine.isStray_of_mem) hb hlies hlength
      refine absurd ?_ (not_isInfix_blankLine hempty m)
      rw [hbytes]
      exact ((List.suffix_append _ _).isInfix.trans hinside.isInfix).trans
        (List.prefix_append _ _).isInfix

/-! ### Requests -/

namespace Decoding

/-- A request whose head declares a body of a length that is there is complete. -/
theorem ofBytes_of_headSpan {bytes : List UInt8} (span : HeadSpan bytes.toArray)
    {opened : Request} {body : List UInt8} (hparse : Head.parseBytes span.bytes = .ok opened)
    (hframing : Framing.ofFields opened.fields = .ok (.length body.length))
    (hbody : body <+: bytes.drop span.bodyStart) (hsize : span.bodyStart ≤ bytes.length) :
    ofBytes bytes =
      .complete { opened with body := body } (span.bodyStart + body.length) := by
  have hfound : findFrom blankLineAt? bytes.toArray
      (max (Decoder.skipStray bytes.toArray 0) (0 - 3)) = some (span.stop, span.blank) := by
    rw [Nat.zero_sub, Nat.max_zero]
    exact span.found
  have hfits : span.bodyStart + body.length ≤ bytes.toArray.size := by
    have hle := hbody.length_le
    rw [List.length_drop] at hle
    rw [List.size_toArray]
    omega
  have hslice : bytesBetween bytes.toArray span.bodyStart (span.bodyStart + body.length) = body :=
    bytesBetween_of_prefix hbody
  have hstart : span.stop + span.blank.length = span.bodyStart := rfl
  rw [ofBytes, Decoder.fresh, Decoder.decode_head_of_find_some hfound, Decoder.decodeBehind,
    ← HeadSpan.bytes, Decoder.afterHead, hparse]
  simp only [hframing, BodyProgress.start, hstart]
  rw [Decoder.decode_length, if_pos hfits, hslice]

end Decoding

namespace SentRequest

variable (m : SentRequest)

/-- The head begins with a letter of the method. -/
theorem exists_first_byte (e : LineEnding) :
    ∃ b rest, Utf8.encode (m.headText e) = b :: rest ∧ Decoder.isStray b = false := by
  have hmethod : ∃ b rest, Utf8.encode m.method.token.toList = b :: rest ∧
      Decoder.isStray b = false := by
    cases m.method <;> exact ⟨_, _, rfl, by decide⟩
  obtain ⟨b, rest, hb, hstray⟩ := hmethod
  obtain ⟨behind, hbehind⟩ : ∃ behind, m.headText e = m.method.token.toList ++ behind :=
    ⟨_, by rw [headText, joinLines, requestLine, List.append_assoc]⟩
  refine ⟨b, rest ++ Utf8.encode behind, ?_, hstray⟩
  rw [hbehind, Utf8.encode_append, hb, List.cons_append]

/-- The head ends with a character that is no line ending. -/
theorem getLast?_headText (e : LineEnding) :
    ∃ c, (m.headText e).getLast? = some c ∧ c ≠ '\r' ∧ c ≠ '\n' := by
  obtain ⟨line, hline, hlast⟩ :=
    getLast?_joinLines e m.isLine_requestLine fun _ => m.isLine_of_mem
  have hsome : line.getLast? ≠ none := mt List.getLast?_eq_none_iff.1 hline.ne_nil
  obtain ⟨c, hc⟩ := Option.ne_none_iff_exists'.1 hsome
  refine ⟨c, hlast.trans hc, ?_, ?_⟩
  · rintro rfl
    exact hline.getLast_ne hc
  · rintro rfl
    exact hline.not_mem (List.mem_of_getLast? hc)

theorem nil_not_mem_lines (e : LineEnding) : [] ∉ lines (m.headText e) := by
  rw [lines_headText, List.mem_cons, not_or]
  refine ⟨m.isLine_requestLine.ne_nil.symm, fun hmem => ?_⟩
  exact (m.isLine_of_mem hmem).ne_nil rfl

/-- No byte in front of a request is stray. -/
theorem skipStray_render (e : LineEnding) (behind : List UInt8) :
    Decoder.skipStray (Utf8.encode (m.headText e) ++ behind).toArray 0 = 0 := by
  obtain ⟨b, rest, hb, hstray⟩ := m.exists_first_byte e
  rw [hb, List.cons_append]
  exact Decoder.skipStray_cons hstray

/-- The bytes of a request with others behind them. -/
theorem render_append (e : LineEnding) (rest : List UInt8) :
    m.render e ++ rest =
      Utf8.encode (m.headText e) ++ (e.blank.bytes ++ (m.body ++ rest)) := by
  rw [render, head_eq, Utf8.encode_append, e.encode_twice, List.append_assoc, List.append_assoc]

theorem length_render (e : LineEnding) :
    (m.render e).length =
      (Utf8.encode (m.headText e)).length + e.blank.length + m.body.length := by
  have h := congrArg List.length (m.render_append e [])
  simpa [BlankLine.length, Nat.add_assoc] using h

/-- The head of a request is found as it was sent. -/
theorem exists_headSpan_render (e : LineEnding) (rest : List UInt8) :
    ∃ span : HeadSpan (m.render e ++ rest).toArray,
      span.bytes = Utf8.encode (m.headText e) ∧
        span.bodyStart = (Utf8.encode (m.headText e)).length + e.blank.length := by
  obtain ⟨c, hlast, hcr, hlf⟩ := m.getLast?_headText e
  have hskip := m.skipStray_render e (e.blank.bytes ++ (m.body ++ rest))
  rw [m.render_append]
  refine ⟨⟨_, e.blank, ?_⟩, ?_, rfl⟩
  · rw [hskip]
    exact findFrom_blankLineAt?_encode (m.nil_not_mem_lines e) hlast hcr hlf e.blank _
  · change bytesBetween _ (Decoder.skipStray _ 0) (Utf8.encode (m.headText e)).length = _
    rw [hskip, bytesBetween]
    simp

/-- **Decoding undoes sending.** A sent request is decoded as it was sent, with either line ending
and whatever bytes follow. Its fields are those that were sent, the length among them if it is
stated, each spelt as it was, and it consumes the bytes that were sent for it. -/
theorem ofBytes_render (e : LineEnding) (rest : List UInt8) :
    Decoding.ofBytes (m.render e ++ rest) = .complete m.request (m.render e).length ∧
      m.request.fields.toList.Perm (m.allFields.map SentField.entry) := by
  obtain ⟨span, hbytes, hstart⟩ := m.exists_headSpan_render e rest
  have hparse : Head.parseBytes span.bytes = .ok m.opened := by
    rw [hbytes, Head.parseBytes, Utf8.decode_encode]
    exact m.parse_headText e
  have hbody : m.body <+: (m.render e ++ rest).drop span.bodyStart := by
    have hdrop : (m.render e ++ rest).drop span.bodyStart = m.body ++ rest := by
      rw [hstart, m.render_append, ← List.append_assoc, BlankLine.length, ← List.length_append,
        List.drop_left]
    rw [hdrop]
    exact List.prefix_append _ _
  have hsize : span.bodyStart ≤ (m.render e ++ rest).length := by
    rw [hstart, List.length_append, length_render]
    omega
  refine ⟨?_, m.perm_fields⟩
  rw [Decoding.ofBytes_of_headSpan span hparse m.ofFields_opened hbody hsize, length_render, hstart]
  rfl

/-- A request with a colon and a carriage return in a value, an empty value, and a body that looks
like the end of a head. -/
def posted : SentRequest where
  method := .post
  target := "/a?b:c"
  version := .http11
  fields := [⟨"X-Odd", "a:b\rc", by decide, by decide, by decide, by decide, by decide⟩,
    ⟨"Empty", "", by decide, by decide, by decide, by decide, by decide⟩]
  body := Utf8.bytesOf "\r\n\r\n"
  statesLength := true
  target_ne := by decide
  target_unbroken := by decide
  distinct := by decide
  not_framing := by decide
  length_body := by decide
  states_body := by decide

/-- It is decoded as it was sent, in front of the beginning of another request. -/
theorem ofBytes_render_posted :
    Decoding.ofBytes (Utf8.bytesOf
        "POST /a?b:c HTTP/1.1\nX-Odd: a:b\rc\nEmpty: \nContent-Length: 4\n\n\r\n\r\nGET") =
      .complete posted.request 65 := by
  have h := (posted.ofBytes_render .lf (Utf8.bytesOf "GET")).1
  have hlength : (posted.render .lf).length = 65 := by decide +kernel
  have hbytes : posted.render .lf ++ Utf8.bytesOf "GET" = Utf8.bytesOf
      "POST /a?b:c HTTP/1.1\nX-Odd: a:b\rc\nEmpty: \nContent-Length: 4\n\n\r\n\r\nGET" := by
    decide +kernel
  rwa [hbytes, hlength] at h

end SentRequest

end HttpEngine
