import HttpEngine.Intake.Chunked
import HttpEngine.Intake.Head
/-!
# The resumable request decoder

A connection shows the decoder its whole buffer after every read. The decoder answers with a
request and the number of bytes it occupied, with a refusal, or with the word that more bytes are
needed, and then it remembers how far it came: how many stray line endings precede the request
and how far the buffer has been searched for the end of the head; or, once the head is complete,
the request it opened and how much of the body has been read. After a request or a refusal the
decoder starts over.

The search for the end of the head goes back by three bytes, for a blank line may straddle the
previous end of the buffer. The body starts behind a blank line, so never at position zero; the
state carries that, and hence a complete request always occupies at least one byte.

`Decoding.ofBytes` decodes a buffer in one go, with a fresh decoder.
-/

namespace HttpEngine

open Text

/-- How far the body of a request has been read. -/
inductive BodyProgress where
  /-- The body has this many bytes. -/
  | length (size : Nat)
  | chunked (c : Chunked)
  deriving DecidableEq, Repr

/-- The progress of a body of which nothing has been read. -/
def BodyProgress.start (framing : Framing) (position : Nat) : BodyProgress :=
  match framing with
  | .length size => .length size
  | .chunked => .chunked (Chunked.start position)

/-- How far a request has been read. -/
inductive Decoder where
  /-- The first `stray` bytes are stray line endings, and the buffer holds no blank line among
  its first `searched` bytes after them. -/
  | head (stray searched : Nat)
  /-- The head is read, and the body starts at `start`. -/
  | body (request : Request) (start : Nat) (start_pos : 0 < start) (progress : BodyProgress)

/-- What a decoder makes of a buffer. -/
inductive Decoding where
  /-- More bytes are needed. -/
  | incomplete
  /-- The first `consumed` bytes are a request, stray line endings before it included. -/
  | complete (request : Request) (consumed : Nat)
  /-- The bytes can never form a request. -/
  | refused (cause : RequestError)
  deriving DecidableEq

namespace Decoder

/-- The decoder that has read nothing. -/
def fresh : Decoder := .head 0 0

instance : Inhabited Decoder := ⟨fresh⟩

/-- Whether a byte may stray between requests. -/
def isStray (b : UInt8) : Bool := b == 13 || b == 10

/-- Recognises a byte that is no stray one at a position. -/
def properAt? (buf : Buffer) (i : Nat) : Option UInt8 := buf[i]?.filter fun b => !isStray b

/-- The position behind the stray bytes at a position. -/
def skipStray (buf : Buffer) (position : Nat) : Nat :=
  match findFrom properAt? buf position with
  | some (i, _) => i
  | none => max position buf.size

/-- The decoder behind a head. -/
def afterHead (head : List UInt8) (stop : Nat) (blank : BlankLine) : Except RequestError Decoder :=
  match Head.parseBytes head with
  | .error e => .error e
  | .ok request =>
    match Framing.ofFields request.fields with
    | .error e => .error e
    | .ok framing =>
      .ok (.body request (stop + blank.length) (Nat.add_pos_right _ blank.length_pos)
        (.start framing (stop + blank.length)))

/-- Looks for the end of the head, and reads the head if it is there; there is no result if a
slice does not exist. -/
def readHead? (stray searched : Nat) (buf : Buffer) : Option (Except RequestError Decoder) :=
  match findFrom blankLineAt? buf (max stray (searched - 3)) with
  | none => some (.ok (.head stray buf.size))
  | some (stop, blank) => (slice? buf stray stop).map fun head => afterHead head stop blank

/-- Reads the body of a request; there is no result if a slice does not exist. -/
def readBody? (request : Request) (start : Nat) (start_pos : 0 < start) (progress : BodyProgress)
    (buf : Buffer) : Option (Decoding × Decoder) :=
  match progress with
  | .length size =>
    if start + size ≤ buf.size then
      (slice? buf start (start + size)).map fun body =>
        (.complete { request with body := body } (start + size), fresh)
    else some (.incomplete, .body request start start_pos progress)
  | .chunked c =>
    match c.resume buf with
    | .error e => some (.refused (.badChunk e), fresh)
    | .ok (.waiting c) => some (.incomplete, .body request start start_pos (.chunked c))
    | .ok (.finished data stop) =>
      some (.complete { request with body := data } stop, fresh)

/-- What a decoder makes of a buffer, and the decoder afterwards; there is no result if a slice
does not exist. -/
def decode? (d : Decoder) (buf : Buffer) : Option (Decoding × Decoder) :=
  match d with
  | .head stray searched =>
    (readHead? (skipStray buf stray) searched buf).bind fun
      | .error e => some (.refused e, fresh)
      | .ok (.head stray searched) => some (.incomplete, .head stray searched)
      | .ok (.body request start start_pos progress) =>
        readBody? request start start_pos progress buf
  | .body request start start_pos progress => readBody? request start start_pos progress buf

/-- The slice that reading a head asks for exists. -/
theorem readHead?_isSome (stray searched : Nat) (buf : Buffer) :
    (readHead? stray searched buf).isSome := by
  unfold readHead?
  split
  · rfl
  · next stop blank h =>
    have hf := findFrom_blankLineAt? h
    rw [slice?_eq_some (by omega) (by omega)]
    rfl

/-- The slice that reading a body asks for exists. -/
theorem readBody?_isSome (request : Request) (start : Nat) (start_pos : 0 < start)
    (progress : BodyProgress) (buf : Buffer) :
    (readBody? request start start_pos progress buf).isSome := by
  unfold readBody?
  split
  · split
    · next h =>
      rw [slice?_eq_some (Nat.le_add_right _ _) h]
      rfl
    · rfl
  · split <;> rfl

/-- Every slice that decoding asks for exists, whatever buffer the decoder is shown. -/
theorem decode?_isSome (d : Decoder) (buf : Buffer) : (d.decode? buf).isSome := by
  unfold decode?
  split
  · next stray searched =>
    obtain ⟨r, hr⟩ :=
      Option.isSome_iff_exists.1 (readHead?_isSome (skipStray buf stray) searched buf)
    rw [hr, Option.bind_some]
    split
    · rfl
    · rfl
    · exact readBody?_isSome _ _ _ _ _
  · exact readBody?_isSome _ _ _ _ _

/-- What a decoder makes of a buffer, and the decoder afterwards. -/
def decode (d : Decoder) (buf : Buffer) : Decoding × Decoder :=
  (d.decode? buf).get (d.decode?_isSome buf)

theorem decode?_eq (d : Decoder) (buf : Buffer) : d.decode? buf = some (d.decode buf) := by
  simp [decode]

/-- A body that is read to its end ends behind its start, inside the buffer. -/
theorem consumed_of_readBody? {request r : Request} {start n : Nat} {start_pos : 0 < start}
    {progress : BodyProgress} {buf : Buffer} {d : Decoder}
    (h : readBody? request start start_pos progress buf = some (.complete r n, d)) :
    0 < n ∧ n ≤ buf.size := by
  unfold readBody? at h
  split at h
  · split at h
    · next hle =>
      rw [slice?_eq_some (Nat.le_add_right _ _) hle] at h
      simp only [Option.map_some, Option.some.injEq, Prod.mk.injEq, Decoding.complete.injEq] at h
      omega
    · simp at h
  · split at h
    · simp at h
    · simp at h
    · next hresume =>
      have := Chunked.stop_of_resume hresume
      simp only [Option.some.injEq, Prod.mk.injEq, Decoding.complete.injEq] at h
      omega

/-- A request that is decoded occupies at least one byte, and no more than there are. -/
theorem consumed_of_decode {d : Decoder} {buf : Buffer} {r : Request} {n : Nat}
    (h : (d.decode buf).1 = .complete r n) : 0 < n ∧ n ≤ buf.size := by
  have hd := d.decode?_eq buf
  obtain ⟨result, d', hr⟩ : ∃ result d', d.decode buf = (result, d') := ⟨_, _, rfl⟩
  rw [hr] at h hd
  subst h
  unfold decode? at hd
  split at hd
  · next stray searched =>
    obtain ⟨x, hx⟩ :=
      Option.isSome_iff_exists.1 (readHead?_isSome (skipStray buf stray) searched buf)
    rw [hx, Option.bind_some] at hd
    split at hd
    · simp at hd
    · simp at hd
    · exact consumed_of_readBody? hd
  · exact consumed_of_readBody? hd

end Decoder

/-- What bytes make by themselves, read in one go. -/
def Decoding.ofBytes (bytes : List UInt8) : Decoding := (Decoder.fresh.decode bytes.toArray).1

end HttpEngine
