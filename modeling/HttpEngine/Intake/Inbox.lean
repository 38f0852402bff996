import HttpEngine.Intake.Decoder
/-!
# The inbox of a connection

A connection keeps the bytes that have arrived and are not yet part of a request in a buffer, with
a decoder that knows how far the buffer has been read. Bytes join the buffer at its end; taking a
request removes its bytes from the front, and what follows them is left for the next request.
-/

namespace HttpEngine

/-- The bytes that have arrived, and how far they have been read. -/
structure Inbox where
  buffer : Buffer := #[]
  decoder : Decoder := Decoder.fresh

namespace Inbox

instance : Inhabited Inbox := ⟨{}⟩

/-- The inbox with bytes that have arrived. -/
def push (i : Inbox) (bytes : List UInt8) : Inbox := { i with buffer := i.buffer ++ bytes }

/-- The inbox without up to `n` bytes at its front. -/
def drop (i : Inbox) (n : Nat) : Inbox := { i with buffer := i.buffer.extract n }

/-- Decodes the buffer once, and removes the bytes of a request. -/
def take (i : Inbox) : Decoding × Inbox :=
  match i.decoder.decode i.buffer with
  | (.complete request consumed, d) => (.complete request consumed, ⟨i.buffer.extract consumed, d⟩)
  | (result, d) => (result, ⟨i.buffer, d⟩)

/-- Pushes pieces in turn and decodes after each, up to the first refusal: what each decoding made,
and the inbox afterwards. -/
def feed (i : Inbox) : List (List UInt8) → List Decoding × Inbox
  | [] => ([], i)
  | piece :: rest =>
    match (i.push piece).take with
    | (.refused cause, i) => ([.refused cause], i)
    | (result, i) => (result :: (feed i rest).1, (feed i rest).2)

/-- Bytes join the buffer at its end. -/
@[simp] theorem toList_push (i : Inbox) (bytes : List UInt8) :
    (i.push bytes).buffer.toList = i.buffer.toList ++ bytes := by
  simp [push]

theorem size_push (i : Inbox) (bytes : List UInt8) :
    (i.push bytes).buffer.size = i.buffer.size + bytes.length := by
  rw [← Array.length_toList, toList_push, List.length_append, Array.length_toList]

/-- The bytes of a request leave the buffer, and they are not none. -/
theorem size_of_take {i : Inbox} {r : Request} {n : Nat} (h : i.take.1 = .complete r n) :
    i.take.2.buffer.size < i.buffer.size := by
  unfold take at h ⊢
  split at h
  · next request consumed d hd =>
    have hc := Decoder.consumed_of_decode (by rw [hd])
    simp only [Array.size_extract]
    omega
  · next result d hne hd =>
    exact absurd h (hne r n)

/-- Decoding removes nothing but the bytes of a request. -/
theorem size_of_take_le (i : Inbox) : i.take.2.buffer.size ≤ i.buffer.size := by
  unfold take
  split
  · simp only [Array.size_extract]
    omega
  · exact Nat.le_refl _

end Inbox

end HttpEngine
