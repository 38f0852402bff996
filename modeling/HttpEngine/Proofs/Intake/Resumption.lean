import HttpEngine.Proofs.Intake.DecoderGrowth
/-!
# Resumed decoding and its frontier

Two consequences of how decoding behaves in a growing buffer.

A decoder may be **resumed**: shown one buffer after the other, each an extension of the one before
as long as more bytes are needed, it answers every time what a fresh decoder would
(`Decoder.decode_resumed_eq_ofBytes`). Every call leaves a decoder that is as good as a fresh one
for all buffers that may come next, be it because it has waited in a beginning of them or because it
has started over (`Decoder.decode_after_decode`).

What bytes are decided to be has an exact **frontier** (`Decoding.ofBytes_frontier`): a refusal
stands whatever follows, and a request is decided by the bytes it occupies, by all of them and by
no others.
-/

namespace HttpEngine

open Text

/-- A buffer is decoded in one go by a fresh decoder. -/
theorem Decoding.ofBytes_toList (b : Buffer) :
    Decoding.ofBytes b.toList = (Decoder.fresh.decode b).1 := by
  rw [Decoding.ofBytes, Array.toArray_toList]

/-! ### Resuming a decoder -/

namespace Decoder

/-- A buffer that is decided leaves the decoder fresh. -/
theorem decode_fresh_of_decided {b : Buffer} {result : Decoding}
    (h : Decoding.ofBytes b.toList = result) (hne : result ≠ .incomplete) :
    fresh.decode b = (result, fresh) := by
  rw [Decoding.ofBytes_toList] at h
  exact Prod.ext h (decoder_of_decode (h ▸ hne))

/-- A decoder that has been fresh decodes the next buffer as a fresh one does, if that buffer
extends the last one whenever more bytes were needed. -/
theorem decode_after_decode {b c : Buffer}
    (hbc : (fresh.decode b).1 = .incomplete → b.toList <+: c.toList) :
    (fresh.decode b).2.decode c = fresh.decode c := by
  by_cases hb : (fresh.decode b).1 = .incomplete
  · rcases decode_fresh_of_grows (hbc hb) with ⟨d, hwait, hresume, -⟩ | ⟨-, hne⟩
    · rw [hwait]
      exact hresume
    · exact absurd hb hne
  · rw [decoder_of_decode hb]

/-- The decoder that stands before call `k` when it is shown buffers in turn. -/
def beforeCall (buffers : Nat → Buffer) : Nat → Decoder
  | 0 => fresh
  | k + 1 => ((beforeCall buffers k).decode (buffers k)).2

/-- What the decoder makes of the buffer of call `k`. -/
def answer (buffers : Nat → Buffer) (k : Nat) : Decoding :=
  ((beforeCall buffers k).decode (buffers k)).1

/-- Buffers are shown **in order** up to call `k` when each extends the one before at its end
wherever more bytes were needed; behind a request or a refusal anything may be shown. -/
def ShownInOrder (buffers : Nat → Buffer) (k : Nat) : Prop :=
  ∀ j < k, answer buffers j = .incomplete → (buffers j).toList <+: (buffers (j + 1)).toList

/-- Before every call the decoder is as good as a fresh one. -/
theorem decode_beforeCall {buffers : Nat → Buffer} {k : Nat} (h : ShownInOrder buffers k) :
    (beforeCall buffers k).decode (buffers k) = fresh.decode (buffers k) := by
  -- on the calls: each begins as a fresh decoder would, and so leaves what a fresh one leaves
  induction k with
  | zero => rfl
  | succ k ih =>
    have hk := ih fun j hj => h j (by omega)
    have hnext := h k (Nat.lt_succ_self k)
    rw [answer, hk] at hnext
    rw [beforeCall, hk]
    exact decode_after_decode hnext

/-- **Resumed decoding is decoding in one go.** Whatever a decoder is shown in order, it answers
every call with what the buffer of that call makes by itself. -/
theorem decode_resumed_eq_ofBytes {buffers : Nat → Buffer} {k : Nat}
    (h : ShownInOrder buffers k) : answer buffers k = Decoding.ofBytes (buffers k).toList := by
  rw [answer, decode_beforeCall h, Decoding.ofBytes_toList]

/-- The buffers of a connection on which a request is cut inside its blank line, and the next one
inside its chunk. -/
def cutBuffers : Nat → Buffer
  | 0 => ⟨Utf8.bytesOf "\r\nGET / HTTP/1.1\r\n\r"⟩
  | 1 => ⟨Utf8.bytesOf "\r\nGET / HTTP/1.1\r\n\r\nPO"⟩
  | 2 => ⟨Utf8.bytesOf "POST / HTTP/1.1\r\nTransfer-Encoding: chunked\r\n\r\n2\r\na"⟩
  | _ => ⟨Utf8.bytesOf "POST / HTTP/1.1\r\nTransfer-Encoding: chunked\r\n\r\n2\r\nab\r\n0\r\n\r\n"⟩

theorem decode_resumed_cutBuffers :
    ShownInOrder cutBuffers 3 ∧
      answer cutBuffers 3 = Decoding.ofBytes (cutBuffers 3).toList := by
  have hrequest : answer cutBuffers 1 ≠ .incomplete := by decide +kernel
  have horder : ShownInOrder cutBuffers 3 := by
    intro j hj hwait
    match j with
    | 0 => decide +kernel
    | 1 => exact absurd hwait hrequest
    | 2 => decide +kernel
    | j + 3 => omega
  exact ⟨horder, decode_resumed_eq_ofBytes horder⟩

end Decoder

/-! ### The frontier of a decision -/

namespace Decoding

/-- What more bytes can do: complete or refuse what was incomplete, a request then ending behind
the bytes before, and nothing else. -/
theorem ofBytes_of_grows {bytes more : List UInt8} (h : bytes <+: more) :
    (ofBytes bytes = .incomplete ∧ (ofBytes more).EndsBeyond bytes.length) ∨
      (ofBytes more = ofBytes bytes ∧ ofBytes bytes ≠ .incomplete) := by
  have hbuf : bytes.toArray.toList <+: more.toArray.toList := h
  rcases Decoder.decode_fresh_of_grows hbuf with ⟨d, hwait, -, hbeyond⟩ | ⟨hsame, hne⟩
  · exact .inl ⟨by rw [ofBytes, hwait], hbeyond⟩
  · exact .inr ⟨by rw [ofBytes, ofBytes, hsame], hne⟩

/-- What has been decided stands whatever follows. -/
theorem ofBytes_eq_of_grows {bytes more : List UInt8} (h : bytes <+: more)
    (hne : ofBytes bytes ≠ .incomplete) : ofBytes more = ofBytes bytes := by
  rcases ofBytes_of_grows h with ⟨hwait, -⟩ | ⟨hsame, -⟩
  · exact absurd hwait hne
  · exact hsame

/-- A request that only more bytes complete ends behind the bytes before. -/
theorem lt_of_ofBytes_of_grows {bytes more : List UInt8} {r : Request} {n : Nat}
    (h : bytes <+: more) (hwait : ofBytes bytes = .incomplete)
    (hmore : ofBytes more = .complete r n) : bytes.length < n := by
  rcases ofBytes_of_grows h with ⟨-, hbeyond⟩ | ⟨-, hne⟩
  · rwa [hmore] at hbeyond
  · exact absurd hwait hne

theorem consumed_of_ofBytes {bytes : List UInt8} {r : Request} {n : Nat}
    (h : ofBytes bytes = .complete r n) : 0 < n ∧ n ≤ bytes.length := by
  simpa using Decoder.consumed_of_decode h

/-- A request is decided by the bytes that it occupies. -/
theorem ofBytes_take {bytes : List UInt8} {r : Request} {n : Nat}
    (h : ofBytes bytes = .complete r n) : ofBytes (bytes.take n) = .complete r n := by
  have hlen := (consumed_of_ofBytes h).2
  have htake : bytes.take n <+: bytes := List.take_prefix n bytes
  rcases ofBytes_of_grows htake with ⟨-, hbeyond⟩ | ⟨hsame, -⟩
  · rw [h, List.length_take, Nat.min_eq_left hlen] at hbeyond
    exact absurd hbeyond (Nat.lt_irrefl n)
  · exact hsame.symm.trans h

/-- Fewer bytes than a request occupies are not decided. -/
theorem ofBytes_take_of_lt {bytes : List UInt8} {r : Request} {m n : Nat}
    (h : ofBytes bytes = .complete r n) (hm : m < n) :
    ofBytes (bytes.take m) = .incomplete := by
  by_contra hne
  have htake : bytes.take m <+: bytes := List.take_prefix m bytes
  have hsame := ofBytes_eq_of_grows htake hne
  have hlen := (consumed_of_ofBytes (hsame.symm.trans h)).2
  rw [List.length_take] at hlen
  omega

/-- **The frontier of a decision.** A refusal stands whatever follows. A request occupies at least
one byte and no more than there are; whatever begins with the bytes it occupies is decided to be
that request, and fewer of them are not decided. -/
theorem ofBytes_frontier (bytes : List UInt8) :
    (∀ cause, ofBytes bytes = .refused cause →
        ∀ more, ofBytes (bytes ++ more) = .refused cause) ∧
      ∀ r n, ofBytes bytes = .complete r n →
        0 < n ∧ n ≤ bytes.length ∧
          (∀ other, bytes.take n <+: other → ofBytes other = .complete r n) ∧
          ∀ m < n, ofBytes (bytes.take m) = .incomplete := by
  constructor
  · intro cause h more
    have hne : ofBytes bytes ≠ .incomplete := by simp [h]
    exact (ofBytes_eq_of_grows (bytes.prefix_append more) hne).trans h
  · intro r n h
    obtain ⟨hpos, hlen⟩ := consumed_of_ofBytes h
    refine ⟨hpos, hlen, fun other hother => ?_, fun m hm => ofBytes_take_of_lt h hm⟩
    have hne : ofBytes (bytes.take n) ≠ .incomplete := by simp [ofBytes_take h]
    exact (ofBytes_eq_of_grows hother hne).trans (ofBytes_take h)

/-- A method that does not exist, and a request with the beginning of another one behind it. -/
theorem ofBytes_frontier_unknown_method :
    (∀ more, ofBytes (Utf8.bytesOf "BREW / HTTP/1.1\n\n" ++ more) =
        .refused (.unknownMethod "BREW")) ∧
      (0 < 16 ∧ 16 ≤ (Utf8.bytesOf "GET / HTTP/1.1\n\nPO").length ∧
        (∀ other, (Utf8.bytesOf "GET / HTTP/1.1\n\nPO").take 16 <+: other →
          ofBytes other =
            .complete { method := .get, target := "/", version := .http11, fields := ∅ } 16) ∧
        ∀ m < 16, ofBytes ((Utf8.bytesOf "GET / HTTP/1.1\n\nPO").take m) = .incomplete) :=
  ⟨(ofBytes_frontier _).1 _ (by decide +kernel), (ofBytes_frontier _).2 _ _ (by decide +kernel)⟩

end Decoding

end HttpEngine
