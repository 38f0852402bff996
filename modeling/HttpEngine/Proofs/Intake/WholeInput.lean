import HttpEngine.Intake.Whole
import HttpEngine.Proofs.Intake.HeadEnd
import HttpEngine.Proofs.Intake.Offset
/-!
# Complete inputs and the decoder

A request is read in two ways: from an input that is known to be complete, by cutting the head off
and reading the body from the start of what follows; and by the decoder, which keeps its positions
in the whole buffer. Both make a request of the same parts, the bytes of the head and what follows
its blank line (`Request.ofParts`).

So they agree on every input that begins with a proper byte and has a blank line
(`Decoding.ofBytes_agrees_with_whole`), as far as they answer the same question: a complete input
has its target parsed, and what the decoder waits for is missing from a complete input. They differ
in one refusal, of a chunk size that overflows only behind the head.

As the parts of a request are the same behind stray line endings, these change nothing in the
request and are counted among its bytes (`Decoding.ofBytes_stray_append`).
-/

namespace HttpEngine

open Text

/-! ### The parts of a request -/

/-- The data of the body at the start of a buffer, and how many bytes it occupies; there are none if
the body is cut short. -/
def Framing.read (framing : Framing) (rest : Buffer) :
    Except ChunkError (Option (List UInt8 × Nat)) :=
  match framing with
  | .length size =>
    if size ≤ rest.size then .ok (some (bytesBetween rest 0 size, size)) else .ok none
  | .chunked =>
    match (Chunked.start 0).resume rest with
    | .error e => .error e
    | .ok (.waiting _) => .ok none
    | .ok (.finished data stop) => .ok (some (data, stop))

namespace Request

/-- The request that a head opens, with the body at the start of what follows the head, and how many
bytes the body occupies; there is none if the body is cut short. -/
def ofParts (head : List UInt8) (rest : Buffer) : Except RequestError (Option (Request × Nat)) :=
  match Head.parseBytes head with
  | .error e => .error e
  | .ok request =>
    match Framing.ofFields request.fields with
    | .error e => .error e
    | .ok framing =>
      match framing.read rest with
      | .error e => .error (.badChunk e)
      | .ok none => .ok none
      | .ok (some (data, size)) => .ok (some ({ request with body := data }, size))

/-- The request with the segments and query parameters of its target, or without any if the target
cannot be parsed. -/
def targeted (r : Request) : Request :=
  match Target.parse r.target with
  | .ok t => { r with segments := t.segments, query := t.params }
  | .error _ => { r with segments := [], query := ∅ }

end Request

/-! ### Complete inputs -/

theorem bodyOf_eq (framing : Framing) (rest : Buffer) :
    bodyOf framing rest =
      match framing.read rest with
      | .error e => .error (.badChunk e)
      | .ok none => .error .cutShort
      | .ok (some (data, _)) => .ok data := by
  cases framing with
  | length size =>
    rw [bodyOf, Framing.read]
    split_ifs
    · simp [bytesBetween, List.extract_eq_take_drop]
    · rfl
  | chunked =>
    rw [bodyOf, Framing.read]
    cases (Chunked.start 0).resume rest with
    | error e => rfl
    | ok p => cases p <;> rfl

namespace Head

/-- A head leaves the target unparsed. -/
theorem unparsed_of_parseBytes {head : List UInt8} {request : Request}
    (h : parseBytes head = .ok request) : request.segments = [] ∧ request.query = ∅ := by
  obtain ⟨text, -, hparse⟩ := of_parseBytes h
  rw [parse] at hparse
  split at hparse
  · simp at hparse
  · split at hparse
    · simp at hparse
    · split at hparse
      · simp at hparse
      · obtain rfl := Except.ok.inj hparse
        exact ⟨rfl, rfl⟩

end Head

namespace Request

theorem tryReadTarget_eq {r : Request} (hsegments : r.segments = []) (hquery : r.query = ∅) :
    r.tryReadTarget = r.targeted := by
  rw [tryReadTarget, readTarget, targeted]
  cases Target.parse r.target with
  | ok t => rfl
  | error cause => rw [← hsegments, ← hquery]

variable {bytes : List UInt8}

theorem splitHead_eq (span : HeadSpan bytes.toArray)
    (hproper : Decoder.skipStray bytes.toArray 0 = 0) :
    splitHead bytes.toArray = (span.bytes, bytes.toArray.extract span.bodyStart) := by
  have hfound := span.found
  rw [hproper] at hfound
  rw [splitHead, hfound, HeadSpan.bytes, hproper, bytesBetween]
  simp [List.extract_eq_take_drop, HeadSpan.bodyStart]

/-- **A complete input** that begins with a proper byte is read by its parts. -/
theorem ofBytes_eq_of_headSpan (span : HeadSpan bytes.toArray)
    (hproper : Decoder.skipStray bytes.toArray 0 = 0) :
    ofBytes bytes =
      match ofParts span.bytes (bytes.toArray.extract span.bodyStart) with
      | .error e => .error e
      | .ok none => .error .cutShort
      | .ok (some (q, _)) => .ok q.targeted := by
  have hne : bytes.isEmpty = false := by
    obtain ⟨-, hlt, -⟩ := findFrom_spec span.found
    cases bytes with
    | nil => simp at hlt
    | cons b rest => rfl
  rw [ofBytes, hne, splitHead_eq span hproper, ofParts]
  simp only [Bool.false_eq_true, if_false]
  cases hparse : Head.parseBytes span.bytes with
  | error e => rfl
  | ok request =>
    obtain ⟨hsegments, hquery⟩ := Head.unparsed_of_parseBytes hparse
    simp only
    cases Framing.ofFields request.fields with
    | error e => rfl
    | ok framing =>
      simp only [bodyOf_eq, tryReadTarget_eq hsegments hquery]
      cases framing.read (bytes.toArray.extract span.bodyStart) with
      | error e => rfl
      | ok body =>
        cases body with
        | none => rfl
        | some body =>
          simp only [targeted]
          cases Target.parse request.target <;> rfl

end Request

/-! ### The decoder -/

namespace Decoding

/-- That decoding a buffer **agrees** with the parts of a request whose body starts at `start`: it
makes the same request, ending with the body, or the same refusal; and where the body is cut short,
it waits, or refuses a chunk size that overflows behind the head. -/
def AgreesWith (start : Nat) (d : Decoding) : Except RequestError (Option (Request × Nat)) → Prop
  | .error cause => d = .refused cause
  | .ok none => d = .incomplete ∨ ∃ size, d = .refused (.badChunk (.sizeOverflow size))
  | .ok (some (r, size)) => d = .complete r (start + size)

variable {bytes : List UInt8}

/-- The decoder reads the body from the start of what follows the head. -/
theorem decode_body_agreesWith {b : Buffer} (hword : b.size < wordSize) {request : Request}
    {start : Nat} (start_pos : 0 < start) (hstart : start ≤ b.size) (framing : Framing) :
    ((Decoder.body request start start_pos (.start framing start)).decode b).1.AgreesWith start
      (match framing.read (b.extract start) with
        | .error e => .error (.badChunk e)
        | .ok none => .ok none
        | .ok (some (data, size)) => .ok (some ({ request with body := data }, size))) := by
  have hbehind := standsBehind_extract hstart
  cases framing with
  | length size =>
    have hsize := hbehind.size_eq
    rw [Framing.read, BodyProgress.start, Decoder.decode_length]
    by_cases hfits : size ≤ (b.extract start).size
    · rw [if_pos hfits, if_pos (by omega), ← hbehind.bytesBetween_eq 0 size]
      rfl
    · rw [if_neg hfits, if_neg (by omega)]
      exact .inl rfl
  | chunked =>
    rw [Framing.read, BodyProgress.start, Decoder.decode_chunked]
    rcases Chunked.resume_shift hbehind hword (Chunked.start 0) with hsame | ⟨w, size, hwait, hover⟩
    · rw [← Chunked.start_add, Nat.add_zero] at hsame
      rw [hsame]
      cases (Chunked.start 0).resume (b.extract start) with
      | error e => rfl
      | ok p =>
        cases p with
        | waiting w => exact .inl rfl
        | finished data stop => rfl
    · rw [← Chunked.start_add, Nat.add_zero] at hover
      rw [hover, hwait]
      exact .inr ⟨size, rfl⟩

/-- **The decoder** reads a buffer by the parts of the request. -/
theorem agreesWith_ofParts (hword : bytes.length < wordSize) (span : HeadSpan bytes.toArray) :
    (ofBytes bytes).AgreesWith span.bodyStart
      (Request.ofParts span.bytes (bytes.toArray.extract span.bodyStart)) := by
  have hfound : findFrom blankLineAt? bytes.toArray
      (max (Decoder.skipStray bytes.toArray 0) (0 - 3)) = some (span.stop, span.blank) := by
    rw [Nat.zero_sub, Nat.max_zero]
    exact span.found
  have hfits : span.bodyStart ≤ bytes.toArray.size := (findFrom_blankLineAt? span.found).2
  rw [ofBytes, Decoder.fresh, Decoder.decode_head_of_find_some hfound, Decoder.decodeBehind,
    ← HeadSpan.bytes, Decoder.afterHead, Request.ofParts]
  cases Head.parseBytes span.bytes with
  | error e => rfl
  | ok request =>
    simp only
    cases Framing.ofFields request.fields with
    | error e => rfl
    | ok framing => exact decode_body_agreesWith hword _ hfits framing

/-- Without a blank line nothing is decided. -/
theorem ofBytes_of_find_none
    (h : findFrom blankLineAt? bytes.toArray (Decoder.skipStray bytes.toArray 0) = none) :
    ofBytes bytes = .incomplete := by
  rw [ofBytes, Decoder.fresh, Decoder.decode_head_of_find_none]
  rwa [Nat.zero_sub, Nat.max_zero]

end Decoding

/-! ### Stray line endings -/

section Stray

variable {front bytes : List UInt8} (hfront : ∀ b ∈ front, Decoder.isStray b = true)
include hfront

/-- Stray bytes in front are skipped, and then those of the bytes themselves. -/
theorem Decoder.skipStray_append :
    skipStray (front ++ bytes).toArray 0 = front.length + skipStray bytes.toArray 0 := by
  have hbehind := standsBehind_append front bytes
  have hskip : findFrom properAt? (front ++ bytes).toArray front.length =
      findFrom properAt? (front ++ bytes).toArray 0 := by
    refine findFrom_eq_of_skip (Nat.zero_le _) fun k _ hk => ?_
    have hget : (front ++ bytes).toArray[k]? = some front[k] := by
      rw [List.getElem?_toArray, List.getElem?_append_left hk, List.getElem?_eq_getElem hk]
    simp [properAt?, hget, hfront _ (List.getElem_mem hk)]
  have hfind := hbehind.find_eq hbehind.properAt?_eq 0
  rw [Nat.add_zero, hskip] at hfind
  cases hbytes : findFrom properAt? bytes.toArray 0 with
  | none =>
    rw [hbytes] at hfind
    rw [skipStray_of_find_none hfind, skipStray_of_find_none hbytes, hbehind.size_eq]
    omega
  | some found =>
    rw [hbytes] at hfind
    rw [skipStray_of_find hfind, skipStray_of_find hbytes]

/-- The blank line behind the head is found behind stray bytes, too. -/
theorem findFrom_blankLineAt?_append (bytes : List UInt8) :
    findFrom blankLineAt? (front ++ bytes).toArray (Decoder.skipStray (front ++ bytes).toArray 0) =
      (findFrom blankLineAt? bytes.toArray (Decoder.skipStray bytes.toArray 0)).map
        fun found => (front.length + found.1, found.2) := by
  have hbehind := standsBehind_append front bytes
  rw [Decoder.skipStray_append hfront, hbehind.find_eq hbehind.blankLineAt?_eq]

/-- **Stray line endings in front** change nothing in a request but the count of its bytes. -/
theorem Decoding.ofBytes_stray_append (hword : front.length + bytes.length < wordSize)
    (q : Request) (n : Nat) :
    ofBytes (front ++ bytes) = .complete q (front.length + n) ↔ ofBytes bytes = .complete q n := by
  have hbehind := standsBehind_append front bytes
  have hfind := findFrom_blankLineAt?_append hfront bytes
  cases hblank : findFrom blankLineAt? bytes.toArray (Decoder.skipStray bytes.toArray 0) with
  | none =>
    rw [hblank] at hfind
    rw [ofBytes_of_find_none hfind, ofBytes_of_find_none hblank]
    simp
  | some found =>
    rw [hblank] at hfind
    let span : HeadSpan bytes.toArray := ⟨found.1, found.2, hblank⟩
    let later : HeadSpan (front ++ bytes).toArray := ⟨front.length + found.1, found.2, hfind⟩
    -- the head and what follows it are the same in both
    have hhead : later.bytes = span.bytes := by
      rw [HeadSpan.bytes, HeadSpan.bytes, Decoder.skipStray_append hfront]
      exact hbehind.bytesBetween_eq _ _
    have hstart : later.bodyStart = front.length + span.bodyStart := Nat.add_assoc _ _ _
    have hrest : (front ++ bytes).toArray.extract later.bodyStart =
        bytes.toArray.extract span.bodyStart := by
      apply Array.toList_inj.1
      rw [toList_extract, toList_extract, hstart, hbehind.drop_add]
    have hparts := agreesWith_ofParts (by omega) span
    have hlater := agreesWith_ofParts (by rw [List.length_append]; omega) later
    rw [hhead, hrest, hstart] at hlater
    cases hof : Request.ofParts span.bytes (bytes.toArray.extract span.bodyStart) with
    | error e =>
      rw [hof] at hparts hlater
      rw [hparts, hlater]
      simp
    | ok parts =>
      rw [hof] at hparts hlater
      cases parts with
      | none =>
        rcases hparts with hparts | ⟨_, hparts⟩ <;> rcases hlater with hlater | ⟨_, hlater⟩ <;>
          rw [hparts, hlater] <;> simp
      | some parts =>
        change ofBytes bytes = .complete parts.1 (span.bodyStart + parts.2) at hparts
        change ofBytes (front ++ bytes) =
          .complete parts.1 (front.length + span.bodyStart + parts.2) at hlater
        rw [hparts, hlater]
        rw [Decoding.complete.injEq, Decoding.complete.injEq, Nat.add_assoc,
          Nat.add_left_cancel_iff]

end Stray

/-! ### Agreement -/

namespace Decoding

variable {bytes : List UInt8}

/-- That a complete input is read as the decoder decodes it. -/
structure WholeAgrees (bytes : List UInt8) : Prop where
  /-- It holds the request that the decoder makes of it, with its target parsed, and no other. -/
  ok_iff : ∀ r, Request.ofBytes bytes = .ok r ↔
    ∃ q n, ofBytes bytes = .complete q n ∧ r = q.targeted
  /-- What the decoder waits for is missing. -/
  cutShort : ofBytes bytes = .incomplete → Request.ofBytes bytes = .error .cutShort
  /-- What the decoder refuses is refused, and for the same cause, unless that is a chunk size which
  overflows only behind the head. -/
  error : ∀ cause, ofBytes bytes = .refused cause →
    Request.ofBytes bytes = .error cause ∨
      Request.ofBytes bytes = .error .cutShort ∧ ∃ size, cause = .badChunk (.sizeOverflow size)

/-- An input that begins with a proper byte and has a blank line is read as it is decoded. -/
theorem wholeAgrees_of_headSpan (hword : bytes.length < wordSize) (span : HeadSpan bytes.toArray)
    (hskip : Decoder.skipStray bytes.toArray 0 = 0) : WholeAgrees bytes := by
  have hdecoded := agreesWith_ofParts hword span
  have hwhole := Request.ofBytes_eq_of_headSpan span hskip
  cases hof : Request.ofParts span.bytes (bytes.toArray.extract span.bodyStart) with
  | error e =>
    rw [hof] at hdecoded hwhole
    change ofBytes bytes = .refused e at hdecoded
    refine ⟨by simp [hdecoded, hwhole], by simp [hdecoded], fun cause hcause => .inl ?_⟩
    rw [hwhole, refused.inj (hdecoded.symm.trans hcause)]
  | ok parts =>
    rw [hof] at hdecoded hwhole
    cases parts with
    | none =>
      rcases hdecoded with hdecoded | ⟨size, hdecoded⟩
      · exact ⟨by simp [hdecoded, hwhole], fun _ => hwhole, by simp [hdecoded]⟩
      · refine ⟨by simp [hdecoded, hwhole], by simp [hdecoded], fun cause hcause => .inr ?_⟩
        exact ⟨hwhole, size, (refused.inj (hdecoded.symm.trans hcause)).symm⟩
    | some parts =>
      obtain ⟨q, size⟩ := parts
      change ofBytes bytes = .complete q (span.bodyStart + size) at hdecoded
      refine ⟨fun r => ?_, by simp [hdecoded], by simp [hdecoded]⟩
      rw [hwhole, hdecoded]
      constructor
      · intro h
        exact ⟨q, _, rfl, (Except.ok.inj h).symm⟩
      · rintro ⟨q', n, hq, rfl⟩
        obtain ⟨rfl, -⟩ := complete.inj hq
        rfl

/-- **Complete inputs and the decoder agree.** For bytes, no more of them than a word counts: if
they begin with a byte that is no stray one and have a blank line, they are read as a complete input
just as the decoder decodes them; and the decoder makes the same request of them with stray line
endings in front, which it counts. -/
theorem ofBytes_agrees_with_whole (bytes : List UInt8) (hword : bytes.length < wordSize) :
    ((∃ b rest, bytes = b :: rest ∧ Decoder.isStray b = false) →
        (findFrom blankLineAt? bytes.toArray 0).isSome → WholeAgrees bytes) ∧
      ∀ front, (∀ b ∈ front, Decoder.isStray b = true) → front.length + bytes.length < wordSize →
        ∀ q n, ofBytes (front ++ bytes) = .complete q (front.length + n) ↔
          ofBytes bytes = .complete q n := by
  refine ⟨fun hproper hblank => ?_, fun front hfront hlen q n =>
    ofBytes_stray_append hfront hlen q n⟩
  obtain ⟨b, rest, rfl, hb⟩ := hproper
  have hskip : Decoder.skipStray (b :: rest).toArray 0 = 0 := Decoder.skipStray_cons hb
  obtain ⟨found, hfound⟩ := Option.isSome_iff_exists.1 hblank
  exact wholeAgrees_of_headSpan hword ⟨found.1, found.2, by rw [hskip]; exact hfound⟩ hskip

/-- A request with a chunked body, and the beginning of another one behind it. -/
def chunkedPost : List UInt8 :=
  Utf8.bytesOf "POST /a%20b?c=d HTTP/1.1\ntransfer-encoding: chunked\n\n2\r\nab\r\n0\r\n\r\nGET"

/-- As a complete input it has its target parsed, and behind a stray line ending it is two bytes
longer. -/
theorem ofBytes_agrees_chunkedPost :
    let decoded : Request :=
      { method := .post, target := "/a%20b?c=d", version := .http11,
        fields := Fields.set ∅ "transfer-encoding" "chunked", body := Utf8.bytesOf "ab" }
    Request.ofBytes chunkedPost = .ok
        { decoded with segments := ["a b"], query := TextMap.ofList [("c", "d")] } ∧
      ofBytes (Utf8.bytesOf "\r\n" ++ chunkedPost) = .complete decoded (2 + 65) := by
  intro decoded
  have h := ofBytes_agrees_with_whole chunkedPost (by decide +kernel)
  have hdecoded : ofBytes chunkedPost = .complete decoded 65 := by decide +kernel
  have hwhole := h.1 ⟨80, chunkedPost.tail, by decide +kernel, by decide⟩ (by decide +kernel)
  exact ⟨(hwhole.ok_iff _).2 ⟨_, _, hdecoded, by decide +kernel⟩,
    (h.2 (Utf8.bytesOf "\r\n") (by decide +kernel) (by decide +kernel) decoded 65).2 hdecoded⟩

end Decoding

end HttpEngine
