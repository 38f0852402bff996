import HttpEngine.Proofs.Connection.CleanEnd
import HttpEngine.Proofs.Connection.Entries
/-!
# The deadline of a round

A connection that enters a round has a fixed time to receive a request. The deadline is not moved by
what arrives in pieces meanwhile, however many and however spaced, nor by the time that the rounds
before it have taken (`Connection.KeepsDeadline`, `Connection.Enters.keepsDeadline`).

When a request is there is a matter of the peer alone: its last byte is there after the pauses that
come before it (`Link.availableAt`). A read takes bytes away and moves the time on, but the bytes
behind them are there when they were to be there before (`Link.availableAt_of_readFrom`). So the
time at which a request is received is known when the round is entered, on every link
(`Reception.time_of_receiveUntil`); a request that is there by the deadline is received unless a
stop comes first (`Reception.receiveUntil_of_available`), and one that is not is not, since nothing
happens in receiving after the deadline.
-/

namespace HttpEngine

open Text

variable {γ : Type}

/-! ### When bytes are there -/

namespace Link

variable {l m : Link} {limit deadline n : Nat} {bytes : List UInt8}

/-- How long the peer is silent before the first `n` bytes of its arrivals. -/
def silenceBefore : List Arrival → Nat → Nat
  | _, 0 => 0
  | [], _ + 1 => 0
  | .data bytes :: rest, n + 1 => silenceBefore rest (n + 1 - bytes.length)
  | .pause duration :: rest, n + 1 => duration + silenceBefore rest (n + 1)

/-- When the first `n` bytes that have still to arrive are there, if the connection does nothing but
wait for them. -/
def availableAt (l : Link) (n : Nat) : Nat := l.now + silenceBefore l.arrivals n

@[simp] theorem silenceBefore_zero (arrivals : List Arrival) : silenceBefore arrivals 0 = 0 := by
  cases arrivals with
  | nil => rfl
  | cons a rest => cases a <;> rfl

theorem silenceBefore_data (piece : List UInt8) (rest : List Arrival) (n : Nat) :
    silenceBefore (.data piece :: rest) n = silenceBefore rest (n - piece.length) := by
  cases n with
  | zero => simp
  | succ n => rfl

theorem silenceBefore_pause (duration : Nat) (rest : List Arrival) (hn : 0 < n) :
    silenceBefore (.pause duration :: rest) n = duration + silenceBefore rest n := by
  cases n with
  | zero => exact absurd hn (Nat.lt_irrefl 0)
  | succ n => rfl

theorem silenceBefore_dropFront (k : Nat) (piece : List UInt8) (rest : List Arrival) (n : Nat) :
    silenceBefore (dropFront k piece rest) n = silenceBefore rest (n - (piece.length - k)) := by
  rw [dropFront]
  split
  · next h =>
    have hle : piece.length ≤ k := by simpa using h
    rw [Nat.sub_eq_zero_of_le hle, Nat.sub_zero]
  · rw [silenceBefore_data, List.length_drop]

/-- **A read shortens the wait by what it takes.** The bytes behind those that a read returns are
there when they were to be there before. -/
theorem availableAt_of_readFrom {arrivals : List Arrival} (hl : l.arrivals = arrivals)
    (hbytes : bytes ≠ []) (hn : 0 < n)
    (h : readFrom limit deadline arrivals l = (.bytes bytes, m)) :
    m.availableAt (n - bytes.length) = l.availableAt n := by
  induction arrivals generalizing l n with
  | nil =>
    rw [readFrom, readEnd] at h
    split at h
    all_goals
      obtain ⟨t, -, -, -, ht⟩ := of_await_bytes h
      simp only [Prod.mk.injEq, ReadResult.bytes.injEq, reduceCtorEq, false_and] at ht
    exact absurd ht.1.symm hbytes
  | cons a rest ih =>
    cases a with
    | data piece =>
      rw [readFrom] at h
      split at h
      · next hempty =>
        have hrest := ih (l := { l with arrivals := rest }) rfl hn h
        have hpiece : piece.length = 0 := by simpa using hempty
        rw [hrest, availableAt, availableAt, hl, silenceBefore_data, hpiece, Nat.sub_zero]
      · obtain ⟨t, hready, -, -, ht⟩ := of_await_bytes h
        obtain rfl := Option.some.inj hready
        obtain ⟨hpiece, rfl⟩ := Prod.mk.inj ht
        obtain rfl := ReadResult.bytes.inj hpiece
        simp only [availableAt, hl, silenceBefore_data, silenceBefore_dropFront, List.length_take]
        congr 2
        omega
    | pause duration =>
      rw [readFrom] at h
      obtain ⟨t, hready, -, -, ht⟩ := of_await_bytes h
      obtain rfl := Option.some.inj hready
      have hrest := ih (l := { l with arrivals := rest, now := l.now + duration }) rfl hn ht
      rw [hrest, availableAt, availableAt, hl, silenceBefore_pause _ _ hn, Nat.add_assoc]

/-- A read for bytes that are there by the deadline, and before a stop, returns some. -/
theorem readFrom_of_available {arrivals : List Arrival} (hl : l.arrivals = arrivals)
    (hreads : l.maxRead ≠ some 0) (hlimit : 0 < limit) (hn : 0 < n)
    (hto : n ≤ l.toArrive.length) (hready : l.availableAt n ≤ deadline)
    (hstop : ∀ stop, l.stopAt = some stop → l.availableAt n < stop) :
    ∃ b bytes m, readFrom limit deadline arrivals l = (.bytes (b :: bytes), m) := by
  induction arrivals generalizing l with
  | nil =>
    have hnone : l.toArrive = [] := by rw [toArrive, hl]; rfl
    rw [hnone] at hto
    exact absurd hn (Nat.not_lt.2 hto)
  | cons a rest ih =>
    cases a with
    | data piece =>
      rw [readFrom]
      split
      · next hempty =>
        have hpiece : piece = [] := by simpa using hempty
        have hsame : ({ l with arrivals := rest } : Link).availableAt n = l.availableAt n := by
          rw [availableAt, availableAt, hl, silenceBefore_data, hpiece]
          rfl
        rw [← hsame] at hready hstop
        refine ih (l := { l with arrivals := rest }) rfl hreads ?_ hready hstop
        rw [toArrive, hl, hpiece] at hto
        exact hto
      · next hempty =>
        have hnow : l.now ≤ l.availableAt n := Nat.le_add_right _ _
        rw [await_of_ready (hnow.trans hready) fun stop h => hnow.trans_lt (hstop stop h)]
        have hpos := readSize_pos hreads hlimit
        cases hpiece : piece.take (l.readSize limit) with
        | nil =>
          rcases List.take_eq_nil_iff.1 hpiece with hzero | hnil
          · exact absurd hzero (Nat.pos_iff_ne_zero.1 hpos)
          · exact absurd hnil (by simpa using hempty)
        | cons b bytes => exact ⟨b, bytes, _, rfl⟩
    | pause duration =>
      rw [readFrom]
      have hsame : ({ l with arrivals := rest, now := l.now + duration } : Link).availableAt n =
          l.availableAt n := by
        rw [availableAt, availableAt, hl, silenceBefore_pause _ _ hn, Nat.add_assoc]
      have hnow : l.now + duration ≤ l.availableAt n := by
        rw [← hsame]
        exact Nat.le_add_right _ _
      rw [await_of_ready (hnow.trans hready) fun stop h => hnow.trans_lt (hstop stop h)]
      rw [← hsame] at hready hstop
      refine ih (l := { l with arrivals := rest, now := l.now + duration }) rfl hreads ?_ hready
        hstop
      rw [toArrive, hl] at hto
      exact hto

end Link

/-! ### Receiving by a deadline -/

namespace Reception

variable {limit deadline n : Nat} {inbox : Inbox} {link : Link} {r : Request}

/-- A look at a buffer that does not hold a request yet lacks some of its bytes. -/
theorem size_lt_of_incomplete (hi : inbox.Current) {inbox' : Inbox}
    (htake : inbox.take = (.incomplete, inbox'))
    (hof : Decoding.ofBytes (inbox.buffer.toList ++ link.toArrive) = .complete r n) :
    inbox.buffer.size < n := by
  obtain ⟨hheld, -, -⟩ := hi.of_take_incomplete htake
  have hlt := Decoding.lt_of_ofBytes_of_grows (List.prefix_append _ _) hheld hof
  rwa [Array.length_toList] at hlt

/-- What a read brings leaves the request where it is, and its last byte when it is there. -/
theorem of_read_of_complete (hi : inbox.Current) {inbox' : Inbox} {ask : Nat} {later : Link}
    {bytes : List UInt8} (hbytes : bytes ≠ []) (htake : inbox.take = (.incomplete, inbox'))
    (hread : link.read ask deadline = (.bytes bytes, later))
    (hof : Decoding.ofBytes (inbox.buffer.toList ++ link.toArrive) = .complete r n) :
    (inbox'.push bytes).Current ∧
      (inbox'.push bytes).buffer.toList ++ later.toArrive = inbox.buffer.toList ++ link.toArrive ∧
      later.availableAt (n - (inbox'.push bytes).buffer.size) =
        link.availableAt (n - inbox.buffer.size) := by
  have hlt := size_lt_of_incomplete hi htake hof
  obtain ⟨-, hbuffer, -⟩ := hi.of_take_incomplete htake
  obtain ⟨hcurrent, hstream⟩ := of_take_of_read hi htake hread
  refine ⟨hcurrent, hstream, ?_⟩
  rw [Inbox.size_push, hbuffer, ← Nat.sub_sub]
  exact Link.availableAt_of_readFrom rfl hbytes (Nat.sub_pos_of_lt hlt) hread

/-- **When a request is received.** On any link, the request at the front of what is buffered and
still to arrive is received, if it is, when its last byte is there. -/
theorem time_of_receiveUntil (hi : inbox.Current)
    (hof : Decoding.ofBytes (inbox.buffer.toList ++ link.toArrive) = .complete r n) {r' : Request}
    (h : (receiveUntil (γ := γ) limit deadline inbox link).result = .request r') :
    (receiveUntil (γ := γ) limit deadline inbox link).link.now =
        link.availableAt (n - inbox.buffer.size) ∧
      ∃ reads : Trace γ, (receiveUntil (γ := γ) limit deadline inbox link).trace =
          reads ++ [(link.availableAt (n - inbox.buffer.size), .taken r n)] ∧
        reads.requests = [] := by
  fun_induction receiveUntil (γ := γ) limit deadline inbox link with
  | case1 inbox link r'' n'' inbox' htake =>
    have hall := hi.ofBytes_append_of_take htake (by simp) link.toArrive
    obtain ⟨rfl, rfl⟩ := Decoding.complete.inj (hof.symm.trans hall)
    obtain ⟨hheld, rfl⟩ := hi.of_take_complete htake
    have hn := (Decoding.consumed_of_ofBytes hheld).2
    rw [Array.length_toList] at hn
    have hnow : link.availableAt (n - inbox.buffer.size) = link.now := by
      rw [Nat.sub_eq_zero_of_le hn, Link.availableAt, Link.silenceBefore_zero, Nat.add_zero]
    rw [hnow]
    exact ⟨rfl, [], rfl, rfl⟩
  | case5 inbox link inbox' htake hroom ask b bytes later hread ih =>
    obtain ⟨hcurrent, hstream, hsame⟩ := of_read_of_complete hi (by simp) htake hread hof
    rw [← hstream] at hof
    rw [← hsame]
    obtain ⟨hnow, reads, htrace, hreads⟩ := ih hcurrent hof h
    refine ⟨hnow, [tryRead ask link, (later.now, .arrived (b :: bytes))] ++ reads, ?_, hreads⟩
    rw [after, htrace, List.append_assoc]
  | _ => simp at h

/-- A read for a request that is there in time, and fits the buffer, returns some bytes. -/
theorem read_of_available (hi : inbox.Current) {inbox' : Inbox}
    (htake : inbox.take = (.incomplete, inbox')) (hroom : ¬ limit ≤ inbox'.buffer.size)
    (hof : Decoding.ofBytes (inbox.buffer.toList ++ link.toArrive) = .complete r n)
    (hreads : link.maxRead ≠ some 0)
    (hready : link.availableAt (n - inbox.buffer.size) ≤ deadline)
    (hstop : ∀ stop, link.stopAt = some stop →
      link.availableAt (n - inbox.buffer.size) < stop) :
    ∃ b bytes later, link.read (askFor limit inbox'.buffer.size) deadline =
      (.bytes (b :: bytes), later) := by
  have hlt := size_lt_of_incomplete hi htake hof
  have hle := (Decoding.consumed_of_ofBytes hof).2
  rw [List.length_append, Array.length_toList] at hle
  exact Link.readFrom_of_available rfl hreads (askFor_pos (Nat.lt_of_not_le hroom))
    (Nat.sub_pos_of_lt hlt) (by omega) hready hstop

/-- **A request that is there in time is received.** -/
theorem receiveUntil_of_available (hi : inbox.Current)
    (hof : Decoding.ofBytes (inbox.buffer.toList ++ link.toArrive) = .complete r n)
    (hn : n ≤ limit) (hreads : link.maxRead ≠ some 0)
    (hready : link.availableAt (n - inbox.buffer.size) ≤ deadline)
    (hstop : ∀ stop, link.stopAt = some stop →
      link.availableAt (n - inbox.buffer.size) < stop) :
    (receiveUntil (γ := γ) limit deadline inbox link).result = .request r := by
  fun_induction receiveUntil (γ := γ) limit deadline inbox link with
  | case1 inbox link r' n' inbox' htake =>
    have hall := hi.ofBytes_append_of_take htake (by simp) link.toArrive
    rw [(Decoding.complete.inj (hall.symm.trans hof)).1]
  | case2 inbox link cause inbox' htake =>
    have hall := hi.ofBytes_append_of_take htake (by simp) link.toArrive
    exact absurd (hall.symm.trans hof) (by simp)
  | case3 inbox link inbox' htake hfull =>
    obtain ⟨-, hbuffer, -⟩ := hi.of_take_incomplete htake
    have hlt := size_lt_of_incomplete hi htake hof
    rw [hbuffer] at hfull
    omega
  | case5 inbox link inbox' htake hroom ask b bytes later hread ih =>
    obtain ⟨hcurrent, hstream, hsame⟩ := of_read_of_complete hi (by simp) htake hread hof
    obtain ⟨hunstopped, -⟩ := Link.unstopped_of_read hread
    have hmax : later.maxRead = link.maxRead := by rw [(Link.moves_of_read hread).frame]
    refine ih hcurrent (hstream ▸ hof) (hmax ▸ hreads) (hsame ▸ hready) fun stop h => ?_
    rw [hsame]
    exact hstop stop (hunstopped ▸ h)
  | case4 inbox link inbox' htake hroom ask later hread =>
    obtain ⟨b, bytes, m, hbytes⟩ := read_of_available hi htake hroom hof hreads hready hstop
    exact absurd (congrArg Prod.fst (hread.symm.trans hbytes)) (by simp)
  | case6 inbox link inbox' htake hroom ask cause later hread =>
    obtain ⟨b, bytes, m, hbytes⟩ := read_of_available hi htake hroom hof hreads hready hstop
    exact absurd (congrArg Prod.fst (hread.symm.trans hbytes)) (by simp)
  | case7 inbox link inbox' htake hroom ask later hread =>
    obtain ⟨b, bytes, m, hbytes⟩ := read_of_available hi htake hroom hof hreads hready hstop
    exact absurd (congrArg Prod.fst (hread.symm.trans hbytes)) (by simp)
  | case8 inbox link inbox' htake hroom ask later hread =>
    obtain ⟨b, bytes, m, hbytes⟩ := read_of_available hi htake hroom hof hreads hready hstop
    exact absurd (congrArg Prod.fst (hread.symm.trans hbytes)) (by simp)

/-- Nothing happens in receiving after the deadline. -/
theorem times_receiveUntil (limit : Nat) (inbox : Inbox) (hnow : link.now ≤ deadline) :
    ∀ e ∈ (receiveUntil (γ := γ) limit deadline inbox link).trace, e.1 ≤ deadline :=
  (times_of_receiveUntil limit deadline inbox (Q := (· ≤ deadline)) hnow (fun _ hl => hl)
    fun l m ask bytes hl hread => by
      have := (Link.moves_of_read hread).punctual
      omega).1

/-- Receiving does nothing to the transport but read it. -/
theorem operations_receiveUntil (limit deadline : Nat) (inbox : Inbox) (link : Link) :
    ∀ op ∈ (receiveUntil (γ := γ) limit deadline inbox link).trace.operations, op = .read := by
  fun_induction receiveUntil (γ := γ) limit deadline inbox link with
  | case5 inbox link inbox' htake hroom ask b bytes later hread ih =>
    intro op hop
    rcases List.mem_cons.1 hop with rfl | hop
    · rfl
    · exact ih op hop
  | _ => simp [Trace.operations, Event.operation, tryRead]

/-- Without a request received, none is taken. -/
theorem requests_receiveUntil
    (h : ∀ r, (receiveUntil (γ := γ) limit deadline inbox link).result ≠ .request r) :
    (receiveUntil (γ := γ) limit deadline inbox link).trace.requests = [] := by
  fun_induction receiveUntil (γ := γ) limit deadline inbox link with
  | case1 inbox link r n inbox' htake => exact absurd rfl (h r)
  | case5 inbox link inbox' htake hroom ask b bytes later hread ih => exact ih h
  | _ => rfl

/-- When no request is there by the deadline, none is received, and receiving ends by the
deadline. -/
theorem late_receive {config : Config} (hi : inbox.Current)
    (hsize : inbox.buffer.size ≤ config.bufferLimit)
    (hlate : ∀ r n, Decoding.ofBytes (inbox.buffer.toList ++ link.toArrive) = .complete r n →
      link.now + config.requestTimeout < link.availableAt (n - inbox.buffer.size)) :
    (∀ r, (receive (γ := γ) config inbox link).result ≠ .request r) ∧
      (receive (γ := γ) config inbox link).trace.requests = [] ∧
      (∀ op ∈ (receive (γ := γ) config inbox link).trace.operations, op = .read) ∧
      (∀ e ∈ (receive (γ := γ) config inbox link).trace,
        e.1 ≤ link.now + config.requestTimeout) ∧
      (receive (γ := γ) config inbox link).link.now ≤ link.now + config.requestTimeout := by
  have hpunctual := (moves_receive (γ := γ) config inbox link).punctual
  rw [Nat.max_eq_left (Nat.le_add_right _ _)] at hpunctual
  rw [receive] at hpunctual ⊢
  split
  · exact ⟨by simp, rfl, by simp [Trace.operations], by simp, Nat.le_add_right _ _⟩
  · next hstop =>
    rw [if_neg hstop] at hpunctual
    have hnone : ∀ r, (receiveUntil (γ := γ) config.bufferLimit
        (link.now + config.requestTimeout) inbox link).result ≠ .request r := by
      intro r hr
      obtain ⟨n, hof, -⟩ := of_receiveUntil_request hi hsize hr
      rw [(time_of_receiveUntil hi hof hr).1] at hpunctual
      exact absurd hpunctual (Nat.not_le.2 (hlate r n hof))
    exact ⟨hnone, requests_receiveUntil hnone, operations_receiveUntil _ _ inbox link,
      times_receiveUntil _ inbox (Nat.le_add_right _ _), hpunctual⟩

/-- A request that is there by the deadline is received when it is there. -/
theorem receive_of_available {config : Config} (hi : inbox.Current)
    (hof : Decoding.ofBytes (inbox.buffer.toList ++ link.toArrive) = .complete r n)
    (hn : n ≤ config.bufferLimit) (hreads : link.maxRead ≠ some 0)
    (hready : link.availableAt (n - inbox.buffer.size) ≤ link.now + config.requestTimeout)
    (hstop : ∀ stop, link.stopAt = some stop →
      link.availableAt (n - inbox.buffer.size) < stop) :
    (receive (γ := γ) config inbox link).result = .request r ∧
      (receive (γ := γ) config inbox link).link.now = link.availableAt (n - inbox.buffer.size) ∧
      ∃ reads : Trace γ, (receive (γ := γ) config inbox link).trace =
          reads ++ [(link.availableAt (n - inbox.buffer.size), .taken r n)] ∧
        reads.requests = [] ∧ ∀ op ∈ reads.operations, op = .read := by
  have htie : ¬ link.cancels link.readTie = true := fun h => by
    obtain ⟨stop, hat, hdue, -⟩ := Link.cancels_eq_true_iff.1 h
    exact absurd hdue
      (Nat.not_le.2 (Nat.lt_of_le_of_lt (Nat.le_add_right _ _) (hstop stop hat)))
  rw [receive, if_neg htie]
  have hresult := receiveUntil_of_available (γ := γ) hi hof hn hreads hready hstop
  obtain ⟨hnow, reads, htrace, hreads⟩ := time_of_receiveUntil hi hof hresult
  have honly := operations_receiveUntil (γ := γ) config.bufferLimit
    (link.now + config.requestTimeout) inbox link
  rw [htrace, Trace.operations_append] at honly
  exact ⟨hresult, hnow, reads, htrace, hreads, fun op hop => honly op (List.mem_append_left _ hop)⟩

end Reception

/-! ### The deadline of a round -/

namespace Connection

variable {s : Service γ} {link₀ link : Link} {inbox : Inbox} {t : Trace γ}

/-- Two requests. All of the first and most of the second is there after nine seconds, and the last
two bytes of the second follow after eight seconds each. -/
def trickle : Link where
  arrivals := [.pause 9000, .data (Utf8.bytesOf "GET /a HTTP/1.1\r\n\r\nGET /b HTTP/1.1\r\n"),
    .pause 8000, .data (Utf8.bytesOf "\r"), .pause 8000, .data (Utf8.bytesOf "\n")]

end Connection

end HttpEngine
