import HttpEngine.Connection.Serve
import Mathlib.Data.Nat.Init
/-!
# Links that nothing disturbs

A link is **undisturbed** when its stream ends by being closed, every read returns something while
there is something, the server is not stopped, and every write is accepted in the end, in pieces of
any size. What is left open is how the stream is cut, how long the pauses are, and how much each
write takes.

On such a link a read returns the next bytes, or it is late; none are returned only at the end of
the stream (`Undisturbed.of_read_bytes`). Writing a response succeeds, and the pieces it writes are
the response (`Undisturbed.writeAll`). Both leave the link undisturbed.
-/

namespace HttpEngine

namespace Link

/-- How long the peer is silent before the last of its arrivals. -/
def silence : List Arrival → Nat
  | [] => 0
  | .data _ :: rest => silence rest
  | .pause duration :: rest => duration + silence rest

/-- When the last arrival is there, if the connection does nothing but wait for it. -/
def lastArrival (l : Link) : Nat := l.now + silence l.arrivals

theorem silence_dropFront (n : Nat) (bytes : List UInt8) (rest : List Arrival) :
    silence (dropFront n bytes rest) = silence rest := by
  rw [dropFront]
  split <;> rfl

/-- A read asks for at least one byte if it asks for any, unless every read returns none. -/
theorem readSize_pos {l : Link} {limit : Nat} (hreads : l.maxRead ≠ some 0) (hlimit : 0 < limit) :
    0 < l.readSize limit := by
  rw [readSize]
  cases hmax : l.maxRead with
  | none => simpa using hlimit
  | some n =>
    have hn : n ≠ 0 := fun h => hreads (hmax.trans (congrArg some h))
    simp only [Option.getD_some]
    omega

/-- Writing succeeds where every write is accepted, and the pieces that are written are the bytes. -/
theorem writeAll_of_takes {l : Link}
    (htakes : ∀ written, ∃ limit, l.offer written = .takes limit ∧ limit ≠ some 0)
    (bytes : List UInt8) :
    ∃ pieces written, l.writeAll bytes = (.done, pieces, { l with written := written }) ∧
      pieces.flatten = bytes := by
  induction h : bytes.length using Nat.strong_induction_on generalizing l bytes with
  | _ size ih =>
    cases bytes with
    | nil => exact ⟨[], l.written, by rw [Link.writeAll], rfl⟩
    | cons b rest =>
      obtain ⟨limit, hoffer, hlimit⟩ := htakes l.written
      rw [Link.writeAll]
      cases limit with
      | none =>
        rw [hoffer]
        exact ⟨_, _, rfl, by simp⟩
      | some n =>
        cases n with
        | zero => exact absurd rfl hlimit
        | succ n =>
          rw [hoffer]
          have hlt : (rest.drop n).length < size := by
            rw [List.length_drop, ← h, List.length_cons]
            omega
          obtain ⟨pieces, written, hwrite, hflat⟩ :=
            ih _ hlt (l := { l with written := l.written + (b :: rest.take n).length }) htakes _ rfl
          refine ⟨(b :: rest.take n) :: pieces, written, ?_, ?_⟩
          · simp only [hwrite]
          · rw [List.flatten_cons, hflat, List.cons_append, List.take_append_drop]

/-- A link on which nothing but the cutting of the stream and of the writes is left open. -/
structure Undisturbed (l : Link) : Prop where
  closes : l.ending = .closes
  reads : l.maxRead ≠ some 0
  unstopped : l.stopAt = none
  takes : ∀ written, ∃ limit, l.offer written = .takes limit ∧ limit ≠ some 0
  flushes : l.flushFails = false

namespace Undisturbed

variable {l : Link} {limit deadline : Nat}

/-- What moves while a connection reads and writes disturbs nothing. -/
theorem frame (hl : l.Undisturbed) (arrivals : List Arrival) (now written : Nat) :
    ({ l with arrivals := arrivals, now := now, written := written } : Link).Undisturbed :=
  ⟨hl.closes, hl.reads, hl.unstopped, hl.takes, hl.flushes⟩

theorem not_cancels (hl : l.Undisturbed) (tie : Tie) : ¬ l.cancels tie = true := by
  rw [cancels, stopped, hl.unstopped]
  exact Bool.false_ne_true

/-- Without a stop, only the deadline ends a wait early. -/
theorem wake (hl : l.Undisturbed) (t : Nat) :
    (deadline < t ∧ l.wake (some t) deadline = (.late, deadline)) ∨
      l.wake (some t) deadline = (.ready, t) := by
  simp only [Link.wake, hl.unstopped]
  by_cases ht : t ≤ deadline
  · exact .inr (if_pos ht)
  · exact .inl ⟨Nat.lt_of_not_le ht, if_neg ht⟩

/-- A wait is late or goes on with what was waited for. -/
theorem await (hl : l.Undisturbed) (t : Nat) (act : Link → ReadResult × Link) :
    (deadline < t ∧ ∃ m, l.await (some t) deadline act = (.late, m)) ∨
      l.await (some t) deadline act = act { l with now := t } := by
  rw [Link.await]
  rcases hl.wake t with ⟨ht, h⟩ | h
  · exact .inl ⟨ht, _, by rw [h]⟩
  · exact .inr (by rw [h])

/-- A read from a piece of data takes some of it, and none of the silence behind it. -/
theorem read_data (hl : l.Undisturbed) (hlimit : 0 < limit) {piece : List UInt8}
    {rest : List Arrival} (hpiece : piece ≠ []) (harrivals : l.arrivals = .data piece :: rest) :
    (piece.take (l.readSize limit)).length ≤ limit ∧ piece.take (l.readSize limit) ≠ [] ∧
      ({ l with arrivals := dropFront (l.readSize limit) piece rest } : Link).lastArrival =
        l.lastArrival := by
  have hpos := readSize_pos hl.reads hlimit
  refine ⟨?_, ?_, ?_⟩
  · rw [List.length_take, readSize]
    omega
  · rw [Ne, List.take_eq_nil_iff]
    rintro (hzero | hnil)
    · exact absurd hzero (Nat.pos_iff_ne_zero.1 hpos)
    · exact hpiece hnil
  · simp [lastArrival, silence_dropFront, harrivals, silence]

/-- What reading from the arrivals of a link comes to. -/
theorem readFrom (hl : l.Undisturbed) (hlimit : 0 < limit) (deadline : Nat)
    {arrivals : List Arrival} (harrivals : l.arrivals = arrivals) :
    (deadline < l.lastArrival ∧ ∃ m, Link.readFrom limit deadline arrivals l = (.late, m)) ∨
      ∃ bytes m, Link.readFrom limit deadline arrivals l = (.bytes bytes, m) ∧ m.Undisturbed ∧
        bytes.length ≤ limit ∧ (bytes = [] → m.toArrive = []) ∧
        m.lastArrival = l.lastArrival ∧ l.now ≤ m.now := by
  induction arrivals generalizing l with
  | nil =>
    rw [Link.readFrom, readEnd, hl.closes]
    rcases hl.await l.now fun l => (.bytes [], l) with ⟨ht, hlate⟩ | hgo
    · exact .inl ⟨Nat.lt_of_lt_of_le ht (Nat.le_add_right _ _), hlate⟩
    · refine .inr ⟨[], _, hgo, hl, Nat.zero_le _, fun _ => ?_, rfl, Nat.le_refl _⟩
      simp [toArrive, harrivals]
  | cons a rest ih =>
    cases a with
    | data piece =>
      rw [Link.readFrom]
      by_cases hempty : piece.isEmpty = true
      · -- an empty piece is no data, and what follows it is read
        rw [if_pos hempty]
        have hlast : ({ l with arrivals := rest } : Link).lastArrival = l.lastArrival := by
          simp [lastArrival, harrivals, silence]
        rw [← hlast]
        exact ih (hl.frame rest l.now l.written) rfl
      · rw [if_neg hempty]
        rcases hl.await l.now fun l => (.bytes (piece.take (l.readSize limit)),
          { l with arrivals := dropFront (l.readSize limit) piece rest }) with ⟨ht, hlate⟩ | hgo
        · exact .inl ⟨Nat.lt_of_lt_of_le ht (Nat.le_add_right _ _), hlate⟩
        · have hpiece : piece ≠ [] := by simpa using hempty
          obtain ⟨hlen, hsome, hlast⟩ := hl.read_data hlimit hpiece harrivals
          exact .inr ⟨_, _, hgo, hl.frame _ l.now l.written, hlen,
            fun hnil => absurd hnil hsome, hlast, Nat.le_refl _⟩
    | pause duration =>
      -- the pause moves from the arrivals into the present time
      rw [Link.readFrom]
      have hlast : ({ l with arrivals := rest, now := l.now + duration } : Link).lastArrival =
          l.lastArrival := by
        simp [lastArrival, harrivals, silence, Nat.add_assoc]
      rcases hl.await (l.now + duration) fun l =>
        Link.readFrom limit deadline rest { l with arrivals := rest } with ⟨ht, hlate⟩ | hgo
      · rw [← hlast]
        exact .inl ⟨Nat.lt_of_lt_of_le ht (Nat.le_add_right _ _), hlate⟩
      · rw [hgo, ← hlast]
        rcases ih (hl.frame rest (l.now + duration) l.written) rfl with
          hlate | ⟨bytes, m, hread, hm, hlen, hnil, hmlast, hnow⟩
        · exact .inl hlate
        · exact .inr ⟨bytes, m, hread, hm, hlen, hnil, hmlast,
            Nat.le_trans (Nat.le_add_right _ _) hnow⟩

variable {result : ReadResult} {bytes : List UInt8} {m : Link}

/-- A read is late or returns bytes. -/
theorem result_of_read (hl : l.Undisturbed) (hlimit : 0 < limit)
    (h : l.read limit deadline = (result, m)) :
    result = .late ∨ ∃ bytes, result = .bytes bytes := by
  rcases hl.readFrom hlimit deadline rfl with ⟨-, m', hlate⟩ | ⟨bytes, m', hread, -⟩
  · exact .inl (congrArg Prod.fst (h.symm.trans hlate))
  · exact .inr ⟨bytes, congrArg Prod.fst (h.symm.trans hread)⟩

/-- A read is late only if the last arrival is. -/
theorem of_read_late (hl : l.Undisturbed) (hlimit : 0 < limit)
    (h : l.read limit deadline = (.late, m)) : deadline < l.lastArrival := by
  rcases hl.readFrom hlimit deadline rfl with ⟨hlast, -⟩ | ⟨bytes, m', hread, -⟩
  · exact hlast
  · exact absurd (congrArg Prod.fst (h.symm.trans hread)) (by simp)

/-- A read returns the next bytes, none of them only when none are left, and waits no longer than it
must. -/
theorem of_read_bytes (hl : l.Undisturbed) (hlimit : 0 < limit)
    (h : l.read limit deadline = (.bytes bytes, m)) :
    m.Undisturbed ∧ bytes.length ≤ limit ∧ l.toArrive = bytes ++ m.toArrive ∧
      (bytes = [] → m.toArrive = []) ∧ m.lastArrival = l.lastArrival ∧ l.now ≤ m.now := by
  rcases hl.readFrom hlimit deadline rfl with
    ⟨-, m', hlate⟩ | ⟨bytes', m', hread, hm, hlen, hnil, htime⟩
  · exact absurd (congrArg Prod.fst (h.symm.trans hlate)) (by simp)
  · obtain ⟨hbytes, rfl⟩ := Prod.mk.inj (h.symm.trans hread)
    obtain rfl := ReadResult.bytes.inj hbytes
    exact ⟨hm, hlen, toArrive_read h, hnil, htime⟩

/-- Writing succeeds, and the pieces that are written are the bytes. -/
theorem writeAll (hl : l.Undisturbed) (bytes : List UInt8) :
    ∃ pieces m, l.writeAll bytes = (.done, pieces, m) ∧ pieces.flatten = bytes ∧
      m.Undisturbed ∧ m.now = l.now ∧ m.arrivals = l.arrivals := by
  obtain ⟨pieces, written, hwrite, hflat⟩ := writeAll_of_takes hl.takes bytes
  exact ⟨pieces, _, hwrite, hflat, hl.frame l.arrivals l.now written, rfl, rfl⟩

end Undisturbed

end Link

/-! ### Connections on undisturbed links -/

namespace Reception

theorem askFor_pos {limit buffered : Nat} (h : buffered < limit) : 0 < askFor limit buffered := by
  rw [askFor, readChunk]
  omega

theorem askFor_le (limit buffered : Nat) : askFor limit buffered ≤ limit - buffered :=
  Nat.min_le_left _ _

end Reception

/-- On an undisturbed link a response is written as a whole, in no time. -/
theorem Connection.send_of_undisturbed {γ : Type} {link : Link} (hl : link.Undisturbed)
    (bytes : List UInt8) :
    ∃ (pieces : List (List UInt8)) (later : Link), send (γ := γ) link bytes =
        ⟨.done, later, Trace.stamp link.now (pieces.map .wrote ++ [.flushed])⟩ ∧
      pieces.flatten = bytes ∧ later.Undisturbed ∧ later.now = link.now ∧
      later.arrivals = link.arrivals := by
  obtain ⟨pieces, later, hwrite, hflat, hlater, htime⟩ := hl.writeAll bytes
  refine ⟨pieces, later, ?_, hflat, hlater, htime⟩
  rw [send, if_neg (hl.not_cancels _), hwrite]
  simp [hlater.flushes]

end HttpEngine
