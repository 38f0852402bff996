import HttpEngine.Proofs.Connection.Punctual
import HttpEngine.Proofs.Connection.Transport
import HttpEngine.Proofs.Intake.CurrentInbox
/-!
# Conversations

What a service answers to a stream of bytes is a **conversation** (`Service.conversation`): decode
the whole stream, answer the request at its front, drop its bytes and go on, until the stream holds
no complete request, or one that is longer than the buffer limit, or the answer does not persist.
No buffer, no decoder state and no clock appear in it.

A connection whose link is undisturbed writes exactly the conversation of the stream that the link
delivers, unless a deadline passes (`Connection.written_serve_eq_conversation`). The stream may be
cut into reads anywhere, and the responses into writes.

The invariant of the connection is that its inbox is current, holds no more than the limit, and
that what it buffers, with what is still to arrive, is the rest of the stream. Receiving a request
keeps it (`Reception.faithful_receiveUntil`), and so does every round of serving.
-/

namespace HttpEngine

open Text

variable {γ : Type}

/-! ### The conversation of a stream -/

/-- The bytes with which a service answers the requests of a stream. -/
def Service.conversation (s : Service γ) (stream : List UInt8) : List UInt8 :=
  match _h : Decoding.ofBytes stream with
  | .complete request n =>
    if n ≤ s.config.bufferLimit then
      (s.answer request).encode ++
        if (s.answer request).persists then s.conversation (stream.drop n) else []
    else []
  | _ => []
termination_by stream.length
decreasing_by
  have := Decoding.consumed_of_ofBytes _h
  simp only [List.length_drop]
  omega

namespace Service

variable {s : Service γ} {stream : List UInt8} {request : Request} {n : Nat}

/-- A request that fits the buffer is answered. -/
theorem conversation_of_complete (h : Decoding.ofBytes stream = .complete request n)
    (hn : n ≤ s.config.bufferLimit) :
    s.conversation stream =
      (s.answer request).encode ++
        if (s.answer request).persists then s.conversation (stream.drop n) else [] := by
  rw [conversation]
  split
  · next request' n' h' =>
    obtain ⟨rfl, rfl⟩ := Decoding.complete.inj (h.symm.trans h')
    exact if_pos hn
  · next hne => exact absurd h (hne request n)

/-- Without a request that fits the buffer nothing is answered. -/
theorem conversation_eq_nil
    (h : ∀ request n, Decoding.ofBytes stream = .complete request n → s.config.bufferLimit < n) :
    s.conversation stream = [] := by
  rw [conversation]
  split
  · next request n h' => exact if_neg (Nat.not_le.2 (h request n h'))
  · rfl

end Service

/-! ### Writes in traces -/

namespace Trace

/-- Events that write nothing. -/
theorem written_eq_nil {t : Trace γ} (h : ∀ e ∈ t, ∀ bytes, e.2 ≠ .wrote bytes) :
    t.written = [] := by
  rw [written, List.flatMap_eq_nil_iff]
  intro e he
  split
  · next bytes => exact absurd rfl (h _ he bytes)
  · rfl

theorem written_stamp_wrote (time : Nat) (pieces : List (List UInt8)) :
    (stamp (γ := γ) time (pieces.map .wrote ++ [.flushed])).written = pieces.flatten := by
  induction pieces with
  | nil => rfl
  | cons piece rest ih =>
    rw [List.flatten_cons, ← ih]
    rfl

end Trace

/-- Answering a request writes nothing yet. -/
theorem Service.written_respond (s : Service γ) (request : Request) (time : Nat) :
    (Trace.stamp time (s.respond request).2).written = [] := by
  refine Trace.written_eq_nil fun e he bytes => ?_
  obtain ⟨event, hevent, rfl⟩ := List.mem_map.1 he
  rcases Service.mem_respond hevent with ⟨context, rfl⟩ | ⟨note, rfl, -⟩ <;> simp

/-! ### Receiving a request of a stream -/

namespace Reception

variable {limit deadline : Nat} {inbox : Inbox} {link : Link}

/-- What a read brings moves from what is still to arrive to the end of what is buffered. -/
theorem of_take_of_read (hi : inbox.Current) {inbox' : Inbox} {ask : Nat} {later : Link}
    {bytes : List UInt8} (htake : inbox.take = (.incomplete, inbox'))
    (hread : link.read ask deadline = (.bytes bytes, later)) :
    (inbox'.push bytes).Current ∧
      (inbox'.push bytes).buffer.toList ++ later.toArrive =
        inbox.buffer.toList ++ link.toArrive := by
  obtain ⟨-, hbuffer, hcurrent⟩ := hi.of_take_incomplete htake
  refine ⟨hcurrent.push _, ?_⟩
  rw [Inbox.toList_push, hbuffer, Link.toArrive_read hread, List.append_assoc]

/-- **A request that is received.** From a current inbox within the limit, on any link, it is the
request at the front of what is buffered and still to arrive, it is within the limit, and what is
left is the rest. -/
theorem of_receiveUntil_request {r : Request} (hi : inbox.Current)
    (hsize : inbox.buffer.size ≤ limit)
    (h : (receiveUntil (γ := γ) limit deadline inbox link).result = .request r) :
    ∃ n, Decoding.ofBytes (inbox.buffer.toList ++ link.toArrive) = .complete r n ∧ n ≤ limit ∧
      (receiveUntil (γ := γ) limit deadline inbox link).inbox.buffer.toList ++
          (receiveUntil (γ := γ) limit deadline inbox link).link.toArrive =
        (inbox.buffer.toList ++ link.toArrive).drop n ∧
      (receiveUntil (γ := γ) limit deadline inbox link).inbox.Current ∧
      (receiveUntil (γ := γ) limit deadline inbox link).inbox.buffer.size ≤ limit := by
  fun_induction receiveUntil (γ := γ) limit deadline inbox link with
  | case1 inbox link r' n inbox' htake =>
    obtain rfl := Received.request.inj h
    have hall := hi.ofBytes_append_of_take htake (by simp) link.toArrive
    obtain ⟨hof, rfl⟩ := hi.of_take_complete htake
    have hn := (Decoding.consumed_of_ofBytes hof).2
    refine ⟨n, hall, hn.trans hsize, ?_, Inbox.current_fresh _, ?_⟩
    · rw [toList_extract, List.drop_append_of_le_length hn]
    · rw [Array.size_extract]
      omega
  | case5 inbox link inbox' htake hroom ask b bytes later hread ih =>
    obtain ⟨hcurrent, hstream⟩ := of_take_of_read hi htake hread
    have hlen : (b :: bytes).length ≤ ask := Link.length_of_read hread
    have hask : ask ≤ limit - inbox'.buffer.size := askFor_le _ _
    have hfits : (inbox'.push (b :: bytes)).buffer.size ≤ limit := by
      rw [Inbox.size_push]
      omega
    rw [← hstream]
    exact ih hcurrent hfits h
  | _ => simp at h

/-- **A request that is not received.** When receiving ends on an undisturbed link without a
request, and is not late, a request of the stream is longer than the limit. -/
theorem lt_of_not_received {r : Request} {n : Nat} (hi : inbox.Current) (hl : link.Undisturbed)
    (hnone : ∀ r, (receiveUntil (γ := γ) limit deadline inbox link).result ≠ .request r)
    (hlate : (receiveUntil (γ := γ) limit deadline inbox link).result ≠ .late)
    (h : Decoding.ofBytes (inbox.buffer.toList ++ link.toArrive) = .complete r n) : limit < n := by
  fun_induction receiveUntil (γ := γ) limit deadline inbox link with
  | case1 inbox link r' n' inbox' htake => exact absurd rfl (hnone r')
  | case2 inbox link cause inbox' htake =>
    have hall := hi.ofBytes_append_of_take htake (by simp) link.toArrive
    exact absurd (hall.symm.trans h) (by simp)
  | case3 inbox link inbox' htake hfull =>
    -- a request that is not complete in a full buffer is longer than the limit
    obtain ⟨hof, hbuffer, -⟩ := hi.of_take_incomplete htake
    rw [hbuffer] at hfull
    exact hfull.trans_lt (Decoding.lt_of_ofBytes_of_grows (List.prefix_append _ _) hof h)
  | case4 inbox link inbox' htake hroom ask later hread =>
    obtain ⟨hof, -, -⟩ := hi.of_take_incomplete htake
    have hpos : 0 < ask := askFor_pos (Nat.lt_of_not_le hroom)
    obtain ⟨-, -, harrive, hnil, -⟩ := hl.of_read_bytes hpos hread
    -- nothing is left to arrive, so what is buffered is all there is
    rw [harrive, hnil rfl, List.append_nil, List.append_nil, hof] at h
    exact absurd h (by simp)
  | case5 inbox link inbox' htake hroom ask b bytes later hread ih =>
    obtain ⟨hcurrent, hstream⟩ := of_take_of_read hi htake hread
    have hpos : 0 < ask := askFor_pos (Nat.lt_of_not_le hroom)
    obtain ⟨hlater, -⟩ := hl.of_read_bytes hpos hread
    exact ih hcurrent hlater hnone hlate (hstream ▸ h)
  | case6 inbox link inbox' htake hroom ask cause later hread =>
    have hpos : 0 < ask := askFor_pos (Nat.lt_of_not_le hroom)
    exact absurd (hl.result_of_read hpos hread) (by simp)
  | case7 => exact absurd rfl hlate
  | case8 inbox link inbox' htake hroom ask later hread =>
    have hpos : 0 < ask := askFor_pos (Nat.lt_of_not_le hroom)
    exact absurd (hl.result_of_read hpos hread) (by simp)

/-- Receiving is **faithful** to a stream when it ends with the request at the front of the stream,
leaving the rest, or late, or otherwise only if the stream has no request that fits the limit. -/
def Faithful (limit : Nat) (stream : List UInt8) (got : Reception γ) : Prop :=
  match got.result with
  | .request r =>
    ∃ n, Decoding.ofBytes stream = .complete r n ∧ n ≤ limit ∧
      got.inbox.buffer.toList ++ got.link.toArrive = stream.drop n ∧
      got.inbox.Current ∧ got.inbox.buffer.size ≤ limit ∧ got.link.Undisturbed
  | .late => True
  | _ => ∀ r n, Decoding.ofBytes stream = .complete r n → limit < n

/-- **Receiving is faithful.** From a current inbox within the limit, on an undisturbed link,
receiving is faithful to what is buffered and still to arrive. -/
theorem faithful_receiveUntil (hi : inbox.Current) (hsize : inbox.buffer.size ≤ limit)
    (hl : link.Undisturbed) :
    Faithful limit (inbox.buffer.toList ++ link.toArrive)
      (receiveUntil (γ := γ) limit deadline inbox link) := by
  have hlt (hnone : ∀ r, (receiveUntil (γ := γ) limit deadline inbox link).result ≠ .request r)
      (hlate : (receiveUntil (γ := γ) limit deadline inbox link).result ≠ .late) (r : Request)
      (n : Nat) (hof : Decoding.ofBytes (inbox.buffer.toList ++ link.toArrive) = .complete r n) :
      limit < n := lt_of_not_received hi hl hnone hlate hof
  rw [Faithful]
  cases hresult : (receiveUntil (γ := γ) limit deadline inbox link).result with
  | request r =>
    obtain ⟨n, hof, hn, hrest, hcurrent, hfits⟩ := of_receiveUntil_request hi hsize hresult
    rcases punctual_receiveUntil (γ := γ) limit deadline inbox hl with ⟨hlate, -⟩ | ⟨-, hlink, -⟩
    · exact absurd (hresult.symm.trans hlate) (by simp)
    · exact ⟨n, hof, hn, hrest, hcurrent, hfits, hlink⟩
  | late => trivial
  | _ => exact hlt (by simp [hresult]) (by simp [hresult])

/-- Receiving writes nothing. -/
theorem written_receiveUntil :
    (receiveUntil (γ := γ) limit deadline inbox link).trace.written = [] := by
  fun_induction receiveUntil (γ := γ) limit deadline inbox link with
  | case5 inbox link inbox' htake hroom ask b bytes later hread ih =>
    rw [after, Trace.written_append, ih]
    rfl
  | _ => rfl

theorem faithful_receive (config : Config) (hi : inbox.Current)
    (hsize : inbox.buffer.size ≤ config.bufferLimit) (hl : link.Undisturbed) :
    Faithful config.bufferLimit (inbox.buffer.toList ++ link.toArrive)
      (receive (γ := γ) config inbox link) := by
  rw [receive, if_neg (hl.not_cancels _)]
  exact faithful_receiveUntil hi hsize hl

theorem written_receive (config : Config) (inbox : Inbox) (link : Link) :
    (receive (γ := γ) config inbox link).trace.written = [] := by
  rw [receive]
  split
  · rfl
  · exact written_receiveUntil

end Reception

/-! ### Serving a stream -/

namespace Connection

/-- Closing writes nothing. -/
theorem written_close (link : Link) : (close (γ := γ) link).written = [] := by
  rw [close]
  split <;> rfl

theorem written_closeAfter (config : Config) (link : Link) (result : Received) :
    (closeAfter (γ := γ) config link result).written = [] := by
  cases result <;> exact written_close link

/-- **Serving a stream.** From a current inbox within the limit, on an undisturbed link, a
connection that is never late writes the conversation of what is buffered and still to arrive. -/
theorem written_serveFrom (s : Service γ) {inbox : Inbox} {link : Link} (hi : inbox.Current)
    (hsize : inbox.buffer.size ≤ s.config.bufferLimit) (hl : link.Undisturbed)
    (hlate : Note.noRequestWithin s.config.requestTimeout ∉ (serveFrom s inbox link).notes) :
    (serveFrom s inbox link).written =
      s.conversation (inbox.buffer.toList ++ link.toArrive) := by
  -- on the rounds: what is left after one is again a current inbox on an undisturbed link
  fun_induction serveFrom s inbox link with
  | case1 inbox link got request hresult response sent ih =>
    have hfaithful := Reception.faithful_receive (γ := γ) s.config hi hsize hl
    change Reception.Faithful _ _ got at hfaithful
    rw [Reception.Faithful, hresult] at hfaithful
    obtain ⟨n, hof, hn, hrest, hcurrent, hfits, hlink⟩ := hfaithful
    obtain ⟨pieces, later, hsend, hflat, hlater, -, harrivals⟩ :=
      send_of_undisturbed (γ := γ) hlink response.encode
    have hreceived : got.trace.written = [] := Reception.written_receive s.config inbox link
    have hanswered := s.written_respond request got.link.now
    change sent = _ at hsend
    have harrive : later.toArrive = got.link.toArrive := by
      rw [Link.toArrive, Link.toArrive, harrivals]
    rw [hsend] at hlate ih ⊢
    simp only at hlate ih ⊢
    rw [Trace.written_append, Trace.written_append, Trace.written_append, hreceived, hanswered,
      Trace.written_stamp_wrote, hflat, Service.conversation_of_complete hof hn, List.nil_append,
      List.nil_append]
    by_cases hpersists : response.persists = true
    · -- a later round that is late would make the whole connection late
      have hnotes : Note.noRequestWithin s.config.requestTimeout ∉
          (serveFrom s got.inbox later).notes := by
        intro hmem
        apply hlate
        rw [if_pos hpersists, Trace.notes_append]
        exact List.mem_append_right _ hmem
      rw [if_pos hpersists, if_pos hpersists, ih hcurrent hfits hlater hnotes, harrive, hrest]
    · rw [if_neg hpersists, if_neg hpersists, written_close]
  | case2 inbox link got hresult =>
    have hfaithful := Reception.faithful_receive (γ := γ) s.config hi hsize hl
    change Reception.Faithful _ _ got at hfaithful
    have hreceived : got.trace.written = [] := Reception.written_receive s.config inbox link
    rw [Trace.written_append, hreceived, written_closeAfter]
    refine (Service.conversation_eq_nil ?_).symm
    rw [Reception.Faithful] at hfaithful
    cases h : got.result with
    | request r => exact absurd h (hresult r)
    | late =>
      refine absurd ?_ hlate
      rw [h, Trace.notes_append]
      exact List.mem_append_right _ (List.mem_cons_self)
    | closed => simpa only [h] using hfaithful
    | failed cause => simpa only [h] using hfaithful
    | stopped => simpa only [h] using hfaithful

/-- **A connection holds the conversation of its stream.** However the stream is cut into reads and
the responses into writes, a connection on an undisturbed link that no deadline ends writes exactly
the conversation of the stream. -/
theorem written_serve_eq_conversation (s : Service γ) {link : Link} (hl : link.Undisturbed)
    (hlate : Note.noRequestWithin s.config.requestTimeout ∉ (serve s link).notes) :
    (serve s link).written = s.conversation link.toArrive :=
  written_serveFrom s (Inbox.current_fresh _) (Nat.zero_le _) hl hlate

/-- Two requests that arrive in reads of at most seven bytes, with a pause inside the first blank
line, and are answered in writes of at most ten. -/
def brokenUp : Link where
  arrivals := [.data (Utf8.bytesOf "GET /a HTTP/1.1\r\nhost: x\r\n\r"), .pause 5,
    .data (Utf8.bytesOf "\nGET /b HTTP/1.1\r\nconnection: close\r\n\r\n")]
  maxRead := some 7
  offer := fun _ => .takes (some 10)

theorem undisturbed_brokenUp : brokenUp.Undisturbed where
  closes := rfl
  reads := by decide
  unstopped := rfl
  takes := fun _ => ⟨some 10, rfl, by decide⟩
  flushes := rfl

/-- A service without routes answers the two requests as if they had arrived at once. -/
theorem written_serve_brokenUp :
    (serve ({ context := .ok () } : Service Unit) brokenUp).written =
      ({ context := .ok () } : Service Unit).conversation
        (Utf8.bytesOf ("GET /a HTTP/1.1\r\nhost: x\r\n\r\n" ++
          "GET /b HTTP/1.1\r\nconnection: close\r\n\r\n")) :=
  written_serve_eq_conversation _ undisturbed_brokenUp
    (never_late _ undisturbed_brokenUp (by decide) _)

end Connection

end HttpEngine
