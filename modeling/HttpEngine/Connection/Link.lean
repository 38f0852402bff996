import HttpEngine.ServiceError
/-!
# A connection's transport, in virtual time

A `Link` is the transport of one connection with everything that its peer and its network will do:
the pieces of data that arrive and the pauses between them, how the stream ends, how much each
write takes and which write fails, and when the server is stopped. Time is **virtual**: it is a
number of milliseconds that moves only while a connection waits, straight to the next thing that
can happen.

A pause begins when a read first waits for what follows it. What is ready at the deadline still
counts. A stop ends every wait that would outlast it. Where a stop is due together with something
else, with bytes that are ready, a write or the deadline, **either may go first**: nothing orders
the two. A link says which of them does at each such tie (`Tie`), so what holds of all links holds
however the ties come out. A stop that has not gone first is due again at the next tie, and no time
passes before it is taken.
-/

namespace HttpEngine

/-- Something that the peer of a connection does. -/
inductive Arrival where
  /-- It sends bytes. -/
  | data (bytes : List UInt8)
  /-- It sends nothing for a while. -/
  | pause (duration : Nat)
  deriving DecidableEq, Repr

/-- What happens after the last arrival. -/
inductive Ending where
  /-- The stream ends. -/
  | closes
  /-- The connection is reset. -/
  | breaks
  /-- Nothing, ever. -/
  | silent
  /-- The server is stopped, and nothing else. -/
  | stops
  deriving DecidableEq, Repr

/-- What a transport does with the next write. -/
inductive Offer where
  /-- It takes bytes, up to a limit if there is one. -/
  | takes (limit : Option Nat)
  /-- It fails. -/
  | breaks
  /-- It takes nothing and does not wait either. -/
  | refuses
  /-- It blocks. -/
  | blocks
  /-- It blocks, and the server is stopped. -/
  | stops
  deriving DecidableEq, Repr

/-- A point at which a stop and something else may be due at the same time. A connection does not
come back to it, since a read that returns takes bytes away and every answer is written, so each
succession of outcomes is that of some link. -/
inductive Tie where
  /-- Reading, with so many bytes still to arrive and so many written. -/
  | read (left written : Nat)
  /-- Writing, with so many bytes written. -/
  | write (written : Nat)
  deriving DecidableEq, Repr

/-- The transport of a connection. -/
structure Link where
  arrivals : List Arrival := []
  ending : Ending := .closes
  /-- The most bytes that one read returns. -/
  maxRead : Option Nat := none
  /-- What happens to a write once so many bytes have been written in all. -/
  offer : Nat → Offer := fun _ => .takes none
  flushFails : Bool := false
  closeFails : Bool := false
  /-- Whether the connection is told of a stop. -/
  heedsStop : Bool := true
  /-- How many bytes have been written. -/
  written : Nat := 0
  /-- The present time. -/
  now : Nat := 0
  /-- When the connection is told of a stop. -/
  stopAt : Option Nat := none
  /-- Whether a stop goes first when something else is due as well. -/
  stopFirst : Tie → Bool := fun _ => true

/-- The offers of a transport that takes at most `perWrite` bytes at once and, if there is a
`budget`, makes another offer once that many bytes have been written. -/
def Offer.limited (perWrite : Option Nat) (budget : Option (Nat × Offer)) (written : Nat) : Offer :=
  match budget with
  | none => .takes perWrite
  | some (total, last) =>
    if total ≤ written then last
    else .takes (some (min (perWrite.getD (total - written)) (total - written)))

namespace Link

/-- The bytes that have still to arrive. -/
def toArrive (l : Link) : List UInt8 :=
  l.arrivals.flatMap fun
    | .data bytes => bytes
    | .pause _ => []

/-- The link once the server is stopped. -/
def raiseStop (l : Link) : Link :=
  if l.heedsStop then { l with stopAt := some ((l.stopAt.map (min · l.now)).getD l.now) } else l

/-- Whether the connection has been told of a stop. -/
def stopped (l : Link) : Bool :=
  match l.stopAt with
  | some t => t ≤ l.now
  | none => false

/-- The tie of a read and a stop. -/
def readTie (l : Link) : Tie := .read l.toArrive.length l.written

/-- The tie of a write and a stop. -/
def writeTie (l : Link) : Tie := .write l.written

/-- Whether a stop is due and goes first. -/
def cancels (l : Link) (tie : Tie) : Bool := l.stopped && l.stopFirst tie

/-! ### Reading -/

/-- What ends a wait. -/
inductive Wake where
  | ready
  | late
  | stopped
  deriving DecidableEq, Repr

/-- What ends a wait for something that is ready at a time, or never, and when. -/
def wake (l : Link) (ready : Option Nat) (deadline : Nat) : Wake × Nat :=
  let unstopped : Wake × Nat :=
    match ready with
    | some t => if t ≤ deadline then (.ready, t) else (.late, deadline)
    | none => (.late, deadline)
  match l.stopAt with
  | some t =>
    let due := max t l.now
    if due < unstopped.2 ∨ (due = unstopped.2 ∧ l.stopFirst l.readTie) then (.stopped, due)
    else unstopped
  | none => unstopped

/-- What comes of a read. -/
inductive ReadResult where
  /-- Bytes, or none at the end of the stream. -/
  | bytes (bytes : List UInt8)
  | failed (cause : TransportError)
  /-- The deadline has passed. -/
  | late
  | stopped
  deriving DecidableEq, Repr

/-- Waits for something and goes on with `act` once it is ready. -/
def await (l : Link) (ready : Option Nat) (deadline : Nat) (act : Link → ReadResult × Link) :
    ReadResult × Link :=
  match l.wake ready deadline with
  | (.ready, t) => act { l with now := t }
  | (.late, t) => (.late, { l with now := t })
  | (.stopped, t) => (.stopped, { l with now := t })

/-- The most bytes that a read returns which asks for at most `limit`. -/
def readSize (l : Link) (limit : Nat) : Nat := min limit (l.maxRead.getD limit)

/-- The arrivals without the first `n` bytes of the piece at their front. -/
def dropFront (n : Nat) (bytes : List UInt8) (rest : List Arrival) : List Arrival :=
  if (bytes.drop n).isEmpty then rest else .data (bytes.drop n) :: rest

/-- Reads behind the last arrival. A stop that comes with the read itself is too late for a read
whose deadline has passed. -/
def readEnd (l : Link) (deadline : Nat) : ReadResult × Link :=
  match l.ending with
  | .closes => l.await (some l.now) deadline fun l => (.bytes [], l)
  | .breaks => l.await (some l.now) deadline fun l => (.failed .connectionReset, l)
  | .silent => l.await none deadline fun l => (.late, l)
  | .stops =>
    (if l.now < deadline then l.raiseStop else l).await none deadline fun l => (.late, l)

/-- Reads from arrivals, which are those of the link, waiting for them up to a deadline. -/
def readFrom (limit deadline : Nat) : List Arrival → Link → ReadResult × Link
  | [], l => l.readEnd deadline
  | .data bytes :: rest, l =>
    if bytes.isEmpty then readFrom limit deadline rest { l with arrivals := rest }
    else
      l.await (some l.now) deadline fun l =>
        (.bytes (bytes.take (l.readSize limit)),
          { l with arrivals := dropFront (l.readSize limit) bytes rest })
  | .pause duration :: rest, l =>
    l.await (some (l.now + duration)) deadline fun l =>
      readFrom limit deadline rest { l with arrivals := rest }

/-- Reads at most `limit` bytes, waiting for them up to a deadline. -/
def read (l : Link) (limit deadline : Nat) : ReadResult × Link :=
  readFrom limit deadline l.arrivals l

/-! ### Writing -/

/-- What comes of writing a response. -/
inductive WriteResult where
  | done
  | failed (cause : TransportError)
  | stopped
  /-- Nothing ever comes of it. -/
  | blocked
  deriving DecidableEq, Repr

/-- A write that blocks lasts until a stop. -/
def block (l : Link) : WriteResult × Link :=
  match l.stopAt with
  | some t => (.stopped, { l with now := max t l.now })
  | none => (.blocked, l)

/-- Writes bytes piece by piece: the result, the pieces that were taken, and the link afterwards. -/
def writeAll (l : Link) (bytes : List UInt8) : WriteResult × List (List UInt8) × Link :=
  match bytes with
  | [] => (.done, [], l)
  | b :: rest =>
    match l.offer l.written with
    | .breaks => (.failed .brokenPipe, [], l)
    | .refuses => (.failed .writeZero, [], l)
    | .blocks => (l.block.1, [], l.block.2)
    | .stops => (l.raiseStop.block.1, [], l.raiseStop.block.2)
    | .takes (some 0) => (.failed .writeZero, [], l)
    | .takes none => (.done, [b :: rest], { l with written := l.written + rest.length + 1 })
    | .takes (some (n + 1)) =>
      let piece := b :: rest.take n
      let later := writeAll { l with written := l.written + piece.length } (rest.drop n)
      (later.1, piece :: later.2.1, later.2.2)
termination_by bytes.length
decreasing_by
  simp only [List.length_drop, List.length_cons]
  omega

/-! ### What has still to arrive -/

@[simp] theorem toArrive_raiseStop (l : Link) : l.raiseStop.toArrive = l.toArrive := by
  unfold raiseStop
  split <;> rfl

/-- A wait that ends with bytes has gone on with `act`. -/
theorem of_await {l m : Link} {ready : Option Nat} {deadline : Nat}
    {act : Link → ReadResult × Link} {bytes : List UInt8}
    (h : l.await ready deadline act = (.bytes bytes, m)) :
    ∃ t, act { l with now := t } = (.bytes bytes, m) := by
  unfold await at h
  split at h
  · exact ⟨_, h⟩
  · simp at h
  · simp at h

/-- Taking bytes from the piece at the front leaves the others. -/
theorem take_append_dropFront (n : Nat) (bytes : List UInt8) (rest : List Arrival) (l : Link) :
    bytes.take n ++ ({ l with arrivals := dropFront n bytes rest } : Link).toArrive =
      ({ l with arrivals := .data bytes :: rest } : Link).toArrive := by
  unfold dropFront
  split
  · next h =>
    have hle : bytes.length ≤ n := by simpa using h
    simp [toArrive, List.take_of_length_le hle]
  · simp [toArrive, ← List.append_assoc]

theorem toArrive_readEnd {deadline : Nat} {l m : Link} {bytes : List UInt8}
    (hl : l.arrivals = []) (h : l.readEnd deadline = (.bytes bytes, m)) :
    l.toArrive = bytes ++ m.toArrive := by
  unfold readEnd at h
  split at h
  all_goals
    obtain ⟨t, ht⟩ := of_await h
    simp only [Prod.mk.injEq, ReadResult.bytes.injEq, reduceCtorEq, false_and] at ht
  obtain ⟨rfl, rfl⟩ := ht
  simp [toArrive, hl]

theorem toArrive_readFrom {limit deadline : Nat} {arrivals : List Arrival} {l m : Link}
    {bytes : List UInt8} (hl : l.arrivals = arrivals)
    (h : readFrom limit deadline arrivals l = (.bytes bytes, m)) :
    l.toArrive = bytes ++ m.toArrive := by
  induction arrivals generalizing l with
  | nil => exact toArrive_readEnd hl h
  | cons a rest ih =>
    cases a with
    | data piece =>
      unfold readFrom at h
      split at h
      · next hempty =>
        have hpiece : piece = [] := by simpa using hempty
        rw [← ih rfl h]
        simp [toArrive, hl, hpiece]
      · obtain ⟨t, ht⟩ := of_await h
        simp only [Prod.mk.injEq, ReadResult.bytes.injEq] at ht
        obtain ⟨rfl, rfl⟩ := ht
        have := take_append_dropFront (({ l with now := t } : Link).readSize limit) piece rest
          { l with now := t }
        rw [this]
        simp [toArrive, hl]
    | pause duration =>
      unfold readFrom at h
      obtain ⟨t, ht⟩ := of_await h
      rw [← ih rfl ht]
      simp [toArrive, hl]

/-- A read returns the next bytes that arrive and leaves the others. -/
theorem toArrive_read {limit deadline : Nat} {l m : Link} {bytes : List UInt8}
    (h : l.read limit deadline = (.bytes bytes, m)) : l.toArrive = bytes ++ m.toArrive :=
  toArrive_readFrom rfl h

theorem arrivals_block (l : Link) : l.block.2.arrivals = l.arrivals := by
  unfold block
  split <;> rfl

/-- Writing changes nothing of what has still to arrive. -/
theorem toArrive_writeAll (l : Link) (bytes : List UInt8) :
    (l.writeAll bytes).2.2.toArrive = l.toArrive := by
  fun_induction writeAll l bytes with
  | case1 => rfl
  | case2 => rfl
  | case3 => rfl
  | case4 l => simp [toArrive, arrivals_block]
  | case5 l =>
    rw [← toArrive_raiseStop l]
    simp [toArrive, arrivals_block]
  | case6 => rfl
  | case7 => rfl
  | case8 l b rest n _ piece later ih => exact ih

end Link

end HttpEngine
