import HttpEngine.Proofs.Intake.ChunkGrammar
import HttpEngine.Proofs.Intake.HeadEnd
import HttpEngine.Proofs.Text.Numeral
/-!
# Declared sizes

Where a body ends is **declared** by sizes: by the value of the length field, or by the numeral on
the size line of every chunk. Whatever is decoded, a declared size is written in one or more digits
that denote it, decimal ones in a length and hexadecimal ones in a chunk, and with one plus sign in
front of them or none (`Decoding.declares_of_complete`). No other character is let through.

The sign makes a size ambiguous, for a reader who takes digits alone refuses it or ends the body
elsewhere. It is let through in both kinds of sizes (`Decoding.accepts_plus_sign`); without it in
front, a declared size is digits alone.
-/

namespace HttpEngine

open Text

variable {digit : Char → Bool} {base size : Nat} {field : List Char} {fs : Fields}
  {framing : Framing}

/-! ### Numerals that declare a size -/

/-- That a text **declares** a size: by digits of a class that denote it in a base, behind one plus
sign or none. -/
structure Declares (digit : Char → Bool) (base : Nat) (field : List Char) (size : Nat) : Prop where
  signed : ∃ ds, IsDigits digit ds ∧ numberOf base ds = size ∧ (field = ds ∨ field = '+' :: ds)
  /-- Only the sign keeps a size from being digits alone. -/
  plain_iff : IsDigits digit field ↔ field.head? ≠ some '+'

theorem Declares.of_readNumeral (hdigit : ∀ c, (digitIn base c).isSome = digit c)
    (h : readNumeral base field = some size) : Declares digit base field size := by
  obtain ⟨ds, hdigits, hnumber, -, hfield⟩ := (readNumeral_eq_some_iff hdigit).1 h
  exact ⟨⟨ds, hdigits, hnumber, hfield⟩, isDigits_iff_of_readNumeral hdigit h⟩

/-- The text on a size line that declares the size: what stands before the first semicolon,
trimmed. -/
def sizeField? (line : List UInt8) : Option (List Char) :=
  (Utf8.decode line).toOption.map fun text => trim (text.takeWhile (· != ';'))

/-- That a size line declares a size in hexadecimal digits. -/
def LineDeclares (line : List UInt8) (size : Nat) : Prop :=
  ∃ field, sizeField? line = some field ∧ Declares Char.isHexDigit 16 field size

theorem SizeLine.lineDeclares {line : List UInt8} (h : SizeLine line size) :
    LineDeclares line size := by
  obtain ⟨text, htext, hreads⟩ := h.reads
  refine ⟨trim (text.takeWhile (· != ';')), ?_, .of_readNumeral isSome_digitIn_sixteen hreads⟩
  rw [sizeField?, htext]
  rfl

/-! ### Framings by their fields -/

/-- Without a coding, the length field frames the body. -/
theorem Framing.of_ofFields_length {value : String} (hcoding : fs.value? Head.codingName = none)
    (hlength : fs.value? Head.lengthName = some value) (h : ofFields fs = .ok framing) :
    ∃ size, framing = .length size ∧ readNumeral 10 (trim value.toList) = some size := by
  simp only [ofFields, hcoding, hlength] at h
  split at h
  · next size hsize => exact ⟨size, (Except.ok.inj h).symm, hsize⟩
  · simp at h

/-- With a coding, chunks frame the body, whatever length there is. -/
theorem Framing.of_ofFields_coding {coding : String}
    (hcoding : fs.value? Head.codingName = some coding) (h : ofFields fs = .ok framing) :
    framing = .chunked := by
  simp only [ofFields, hcoding] at h
  split_ifs at h
  exact (Except.ok.inj h).symm

/-! ### Requests by their declared sizes -/

namespace Decoding

variable {bytes : List UInt8} {request : Request} {n : Nat}

/-- **Declared sizes are digits behind one plus sign or none.** Let a request be decoded. If its
body is framed by the length field, the trimmed value declares the length of the body in decimal
digits. If it is framed by a coding, the bytes behind the head are a chunking of the body; and
however they are read as one, every chunk declares the length of its data, and the last size line
none, in hexadecimal digits. -/
theorem declares_of_complete (h : ofBytes bytes = .complete request n) :
    ∃ span : HeadSpan bytes.toArray,
      (∀ value, request.fields.value? Head.codingName = none →
        request.fields.value? Head.lengthName = some value →
          n = span.bodyStart + request.body.length ∧
            Declares Char.isDigit 10 (trim value.toList) request.body.length) ∧
      ∀ coding, request.fields.value? Head.codingName = some coding →
        (∃ t : Chunking, slice? bytes.toArray span.bodyStart n = some t.bytes ∧
          t.data = request.body) ∧
        ∀ t : Chunking, slice? bytes.toArray span.bodyStart n = some t.bytes →
          (∀ chunk ∈ t.chunks, LineDeclares chunk.line chunk.data.length) ∧
            LineDeclares t.last 0 := by
  obtain ⟨span, -, framing, -, -, hframing, hframes⟩ := exists_headSpan h
  refine ⟨span, fun value hcoding hlength => ?_, fun coding hcoding => ⟨?_, fun t _ => ?_⟩⟩
  · obtain ⟨size, rfl, hread⟩ := Framing.of_ofFields_length hcoding hlength hframing
    obtain ⟨hn, hsize, hbody⟩ := hframes
    have hlen : request.body.length = size := by
      rw [hbody, length_bytesBetween hsize]
      omega
    rw [hlen]
    exact ⟨hn, .of_readNumeral isSome_digitIn_ten hread⟩
  · obtain rfl := Framing.of_ofFields_coding hcoding hframing
    obtain ⟨t, hstands, hdata⟩ :=
      (Chunked.left_of_not_trailing rfl).1 (Chunked.left_of_resume rfl hframes)
    exact ⟨t, (slice?_eq_some_iff t.bytes_ne_nil).2 hstands, hdata.symm⟩
  · exact ⟨fun chunk _ => chunk.sized.lineDeclares, t.last_sized.lineDeclares⟩

/-- A request whose length begins with a plus sign. -/
def signedLength : List UInt8 := Utf8.bytesOf "POST / HTTP/1.1\r\nContent-Length: +2\r\n\r\nab"

/-- A chunking whose first size begins with a plus sign. -/
def signedChunking : Chunking where
  chunks := [⟨Utf8.bytesOf "+2", Utf8.bytesOf "ab", ⟨by decide, _, rfl, by decide⟩, by decide⟩]
  last := Utf8.bytesOf "0"
  last_sized := ⟨by decide, _, rfl, by decide⟩
  trailers := []
  trailers_lines := by simp

/-- A request with it as its body. -/
def signedChunk : List UInt8 :=
  Utf8.bytesOf "POST / HTTP/1.1\r\nTransfer-Encoding: chunked\r\n\r\n" ++ signedChunking.bytes

/-- The request that is read of either, by its framing field. -/
def signedRequest (name value : String) : Request :=
  { method := .post, target := "/", version := .http11, fields := Fields.set ∅ name value,
    body := Utf8.bytesOf "ab" }

theorem ofBytes_signedLength :
    ofBytes signedLength = .complete (signedRequest "Content-Length" "+2") 41 := by
  decide +kernel

theorem ofBytes_signedChunk :
    ofBytes signedChunk = .complete (signedRequest "Transfer-Encoding" "chunked") 60 := by
  decide +kernel

/-- The sizes of either declare the body that is read. -/
theorem declares_of_complete_signed :
    (∃ span : HeadSpan signedLength.toArray, 41 = span.bodyStart + 2 ∧
        Declares Char.isDigit 10 ['+', '2'] 2) ∧
      ∃ span : HeadSpan signedChunk.toArray, ∃ t : Chunking,
        slice? signedChunk.toArray span.bodyStart 60 = some t.bytes ∧
          t.data = Utf8.bytesOf "ab" ∧
          (∀ chunk ∈ t.chunks, LineDeclares chunk.line chunk.data.length) ∧
            LineDeclares t.last 0 := by
  obtain ⟨span, hsizes, -⟩ := declares_of_complete ofBytes_signedLength
  obtain ⟨span', -, hchunks⟩ := declares_of_complete ofBytes_signedChunk
  obtain ⟨⟨t, hstands, hdata⟩, hlines⟩ := hchunks "chunked" (by decide +kernel)
  exact ⟨⟨span, hsizes "+2" (by decide +kernel) (by decide +kernel)⟩,
    span', t, hstands, hdata, hlines t hstands⟩

/-- **A plus sign is let through.** Two requests are decoded whose length, and whose chunk size, is
not digits alone. -/
theorem accepts_plus_sign :
    (∃ request n, ofBytes signedLength = .complete request n ∧
        request.fields.value? Head.codingName = none ∧
        ∃ value, request.fields.value? Head.lengthName = some value ∧
          ¬ IsDigits Char.isDigit (trim value.toList)) ∧
      ∃ request n, ∃ span : HeadSpan signedChunk.toArray,
        ofBytes signedChunk = .complete request n ∧
        slice? signedChunk.toArray span.bodyStart n = some signedChunking.bytes ∧
        ∃ chunk ∈ signedChunking.chunks, ∃ field, sizeField? chunk.line = some field ∧
          ¬ IsDigits Char.isHexDigit field :=
  ⟨⟨_, _, ofBytes_signedLength, by decide +kernel, "+2", by decide +kernel, by decide +kernel⟩,
    _, _, ⟨43, .crlf, by decide +kernel⟩, ofBytes_signedChunk, by decide +kernel,
    _, List.mem_cons_self, ['+', '2'], by decide +kernel, by decide +kernel⟩

end Decoding

end HttpEngine
