import HttpEngine.Connection.Link
import HttpEngine.Connection.Trace
import HttpEngine.Intake.Inbox
import HttpEngine.Config
/-!
# Receiving a request

A connection reads until its buffer holds a complete request, takes the request out and keeps what
follows it. It never buffers more than its limit: each read asks for at most what is left of the
limit, and when nothing is left and the buffer still holds no request, the connection fails. The
deadline is set when receiving begins and is not moved by partial reads.

Each read either ends receiving or moves at least one byte from what has still to arrive into the
buffer, which is why receiving ends.
-/

namespace HttpEngine

/-- What comes of receiving. -/
inductive Received where
  | request (r : Request)
  /-- The stream ended between requests. -/
  | closed
  | failed (cause : ServiceError)
  /-- The deadline has passed. -/
  | late
  | stopped
  deriving DecidableEq

/-- What comes of receiving, and the connection afterwards. -/
structure Reception (γ : Type) where
  result : Received
  inbox : Inbox
  link : Link
  trace : Trace γ

namespace Reception

variable {γ : Type}

/-- The most bytes that one read asks for. -/
def readChunk : Nat := 8192

/-- How many bytes a read asks for when `buffered` bytes are buffered. -/
def askFor (limit buffered : Nat) : Nat := min (limit - buffered) readChunk

/-- The reception with something before it. -/
def after (trace : Trace γ) (r : Reception γ) : Reception γ := { r with trace := trace ++ r.trace }

/-- What the end of the stream means: between requests it is no failure. -/
def endOfStream (inbox : Inbox) : Received :=
  if inbox.buffer.isEmpty then .closed else .failed (.transport .unexpectedEnd)

/-- The event of trying to read at most `size` bytes. -/
def tryRead (size : Nat) (link : Link) : Nat × Event γ := (link.now, .asked size)

/-- Receives a request up to a deadline, with at most `limit` bytes in the buffer. -/
def receiveUntil (limit deadline : Nat) (inbox : Inbox) (link : Link) : Reception γ :=
  match inbox.take with
  | (.complete request consumed, inbox) =>
    ⟨.request request, inbox, link, [(link.now, .taken request consumed)]⟩
  | (.refused cause, inbox) => ⟨.failed (.request cause), inbox, link, []⟩
  | (.incomplete, inbox) =>
    if limit ≤ inbox.buffer.size then ⟨.failed (.tooLong limit), inbox, link, []⟩
    else
      let ask := askFor limit inbox.buffer.size
      match _hread : link.read ask deadline with
      | (.bytes [], later) =>
        ⟨endOfStream inbox, inbox, later, [tryRead ask link, (later.now, .arrived [])]⟩
      | (.bytes (b :: bytes), later) =>
        after [tryRead ask link, (later.now, .arrived (b :: bytes))]
          (receiveUntil limit deadline (inbox.push (b :: bytes)) later)
      | (.failed cause, later) =>
        ⟨.failed (.transport cause), inbox, later, [tryRead ask link]⟩
      | (.late, later) => ⟨.late, inbox, later, [tryRead ask link]⟩
      | (.stopped, later) => ⟨.stopped, inbox, later, [tryRead ask link]⟩
termination_by link.toArrive.length
decreasing_by
  have := Link.toArrive_read _hread
  simp only [this, List.length_append, List.length_cons]
  omega

/-- Receives the next request of a connection, unless a stop is due and goes first. -/
def receive (config : Config) (inbox : Inbox) (link : Link) : Reception γ :=
  if link.cancels link.readTie then ⟨.stopped, inbox, link, []⟩
  else receiveUntil config.bufferLimit (link.now + config.requestTimeout) inbox link

/-- The bytes that a connection holds or is still to be sent. -/
def outstanding (inbox : Inbox) (link : Link) : Nat :=
  inbox.buffer.size + link.toArrive.length

theorem outstanding_receiveUntil {limit deadline : Nat} {inbox : Inbox} {link : Link}
    {request : Request}
    (h : (receiveUntil (γ := γ) limit deadline inbox link).result = .request request) :
    outstanding (receiveUntil (γ := γ) limit deadline inbox link).inbox
      (receiveUntil (γ := γ) limit deadline inbox link).link < outstanding inbox link := by
  fun_induction receiveUntil (γ := γ) limit deadline inbox link with
  | case1 inbox link r n inbox' htake =>
    have := Inbox.size_of_take (i := inbox) (r := r) (n := n) (by rw [htake])
    simp only [htake] at this
    simp only [outstanding]
    omega
  | case2 => simp at h
  | case3 => simp at h
  | case4 inbox link inbox' htake hroom ask later hread =>
    unfold endOfStream at h
    split at h <;> simp at h
  | case5 inbox link inbox' htake hroom ask b bytes later hread ih =>
    have hle := inbox.size_of_take_le
    simp only [htake] at hle
    have hrest := ih (by simpa [after] using h)
    have harrive := Link.toArrive_read hread
    simp only [after, outstanding, harrive, Inbox.size_push, List.length_append] at *
    omega
  | case6 => simp at h
  | case7 => simp at h
  | case8 => simp at h

/-- A request that is received uses up bytes. -/
theorem outstanding_receive {config : Config} {inbox : Inbox} {link : Link} {request : Request}
    (h : (receive (γ := γ) config inbox link).result = .request request) :
    outstanding (receive (γ := γ) config inbox link).inbox
      (receive (γ := γ) config inbox link).link < outstanding inbox link := by
  unfold receive at h ⊢
  split at h
  · simp at h
  · next hstop =>
    rw [if_neg hstop]
    exact outstanding_receiveUntil h

end Reception

end HttpEngine
