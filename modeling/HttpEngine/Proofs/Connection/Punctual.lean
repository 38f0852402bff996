import HttpEngine.Proofs.Connection.Undisturbed
/-!
# Connections that are never late

Time moves only in the pauses of a peer. So if all pauses together are no longer than the time a
connection waits for a request, no deadline ever passes (`Connection.never_late`): what is left of
the pauses shrinks by just the time that they take.
-/

namespace HttpEngine

variable {γ : Type}

/-! ### What is noted -/

/-- Whether a note tells why a connection ends. The other notes tell of a fault in answering a
request, or in closing. -/
def Note.ends : Note → Bool
  | .closedByPeer | .readFailed _ | .noRequestWithin _ | .readCancelled => true
  | .writeCancelled | .writeFailed _ => true
  | .closeFailed _ | .badTarget _ | .handlerFailed .. | .handlerCrashed .. => false

namespace Trace

theorem mem_notes_stamp {time : Nat} {events : List (Event γ)} {note : Note} :
    note ∈ (stamp time events).notes ↔ Event.noted note ∈ events := by
  induction events with
  | nil => simp [stamp, notes]
  | cons e events ih =>
    have hcons : stamp time (e :: events) = [(time, e)] ++ stamp time events := rfl
    rw [hcons, notes_append, List.mem_append, ih, List.mem_cons]
    refine or_congr_left ?_
    cases e with
    | noted note' => simp [notes]
    | _ => simp [notes]

end Trace

namespace Service

variable {s : Service γ} {request : Request} {e : Event γ}

theorem ends_contain (s : Service γ) (request : Request) (fault : Fault) :
    (s.contain request fault).2.ends = false := by
  cases fault <;> rfl

/-- Running a flow may only leave a note of its fault. -/
theorem mem_runFlow {flow : Flow γ} (h : e ∈ (s.runFlow flow request).2) :
    (∃ context, e = .ran context) ∨ ∃ note, e = .noted note ∧ note.ends = false := by
  have hfault : ∀ {context : Option γ} {fault : Fault},
      e ∈ [Event.ran context, .noted (s.contain request fault).2] →
        (∃ context, e = .ran context) ∨
          ∃ note, e = .noted note ∧ note.ends = false := by
    intro context fault he
    rcases List.mem_cons.1 he with rfl | he
    · exact .inl ⟨_, rfl⟩
    · exact .inr ⟨_, List.mem_singleton.1 he, s.ends_contain request fault⟩
  rw [runFlow] at h
  split at h
  · exact hfault h
  · split at h
    · exact .inl ⟨_, List.mem_singleton.1 h⟩
    · exact hfault h

/-- Answering a request only runs flows and leaves notes, none of which ends the connection. -/
theorem mem_respond (h : e ∈ (s.respond request).2) :
    (∃ context, e = .ran context) ∨ ∃ note, e = .noted note ∧ note.ends = false := by
  rw [respond] at h
  split at h
  · exact .inr ⟨_, List.mem_singleton.1 h, rfl⟩
  · split at h
    · exact mem_runFlow h
    · simp at h
    · simp at h

end Service

/-! ### Receiving in time -/

namespace Reception

variable {limit deadline : Nat} {inbox : Inbox} {link : Link}

/-- Receiving leaves an undisturbed link so, no later than the last arrival, and it is late only if
that is. -/
theorem punctual_receiveUntil (limit deadline : Nat) (inbox : Inbox) (hl : link.Undisturbed) :
    ((receiveUntil (γ := γ) limit deadline inbox link).result = .late ∧
        deadline < link.lastArrival) ∨
      ((receiveUntil (γ := γ) limit deadline inbox link).result ≠ .late ∧
        (receiveUntil (γ := γ) limit deadline inbox link).link.Undisturbed ∧
        (receiveUntil (γ := γ) limit deadline inbox link).link.lastArrival = link.lastArrival ∧
        link.now ≤ (receiveUntil (γ := γ) limit deadline inbox link).link.now) := by
  fun_induction receiveUntil (γ := γ) limit deadline inbox link with
  | case1 inbox link r n inbox' htake => exact .inr ⟨by simp, hl, rfl, Nat.le_refl _⟩
  | case2 inbox link cause inbox' htake => exact .inr ⟨by simp, hl, rfl, Nat.le_refl _⟩
  | case3 inbox link inbox' htake hfull => exact .inr ⟨by simp, hl, rfl, Nat.le_refl _⟩
  | case4 inbox link inbox' htake hroom ask later hread =>
    have hpos : 0 < ask := askFor_pos (Nat.lt_of_not_le hroom)
    obtain ⟨hlater, -, -, -, htime⟩ := hl.of_read_bytes hpos hread
    refine .inr ⟨?_, hlater, htime⟩
    rw [endOfStream]
    split <;> simp
  | case5 inbox link inbox' htake hroom ask b bytes later hread ih =>
    have hpos : 0 < ask := askFor_pos (Nat.lt_of_not_le hroom)
    obtain ⟨hlater, -, -, -, hlast, hnow⟩ := hl.of_read_bytes hpos hread
    rw [← hlast]
    rcases ih hlater with hlate | ⟨hresult, hlink, hrest, hthen⟩
    · exact .inl hlate
    · exact .inr ⟨hresult, hlink, hrest, Nat.le_trans hnow hthen⟩
  | case6 inbox link inbox' htake hroom ask cause later hread =>
    have hpos : 0 < ask := askFor_pos (Nat.lt_of_not_le hroom)
    exact absurd (hl.result_of_read hpos hread) (by simp)
  | case7 inbox link inbox' htake hroom ask later hread =>
    have hpos : 0 < ask := askFor_pos (Nat.lt_of_not_le hroom)
    exact .inl ⟨rfl, hl.of_read_late hpos hread⟩
  | case8 inbox link inbox' htake hroom ask later hread =>
    have hpos : 0 < ask := askFor_pos (Nat.lt_of_not_le hroom)
    exact absurd (hl.result_of_read hpos hread) (by simp)

/-- Receiving only reads and takes. -/
theorem notes_receiveUntil :
    (receiveUntil (γ := γ) limit deadline inbox link).trace.notes = [] := by
  fun_induction receiveUntil (γ := γ) limit deadline inbox link with
  | case5 inbox link inbox' htake hroom ask b bytes later hread ih =>
    rw [after, Trace.notes_append, ih]
    rfl
  | _ => rfl

theorem notes_receive (config : Config) (inbox : Inbox) (link : Link) :
    (receive (γ := γ) config inbox link).trace.notes = [] := by
  rw [receive]
  split
  · rfl
  · exact notes_receiveUntil

theorem punctual_receive (config : Config) (inbox : Inbox) (hl : link.Undisturbed)
    (hlast : link.lastArrival ≤ link.now + config.requestTimeout) :
    (receive (γ := γ) config inbox link).result ≠ .late ∧
      (receive (γ := γ) config inbox link).link.Undisturbed ∧
      (receive (γ := γ) config inbox link).link.lastArrival = link.lastArrival ∧
      link.now ≤ (receive (γ := γ) config inbox link).link.now := by
  rw [receive, if_neg (hl.not_cancels _)]
  rcases punctual_receiveUntil (γ := γ) config.bufferLimit (link.now + config.requestTimeout)
    inbox hl with ⟨-, hlate⟩ | hgot
  · exact absurd hlast (Nat.not_le.2 hlate)
  · exact hgot

end Reception

/-! ### Serving in time -/

namespace Connection

variable {link : Link}

/-- Closing may only note that it failed. -/
theorem mem_notes_close {note : Note} (h : note ∈ (close (γ := γ) link).notes) :
    note = .closeFailed .notConnected := by
  rw [close] at h
  split at h
  · exact List.mem_singleton.1 h
  · exact absurd h List.not_mem_nil

theorem never_late_serveFrom (s : Service γ) {inbox : Inbox} (hl : link.Undisturbed)
    (hlast : link.lastArrival ≤ link.now + s.config.requestTimeout) (timeout : Nat) :
    Note.noRequestWithin timeout ∉ (serveFrom s inbox link).notes := by
  have hclose : ∀ l : Link, Note.noRequestWithin timeout ∉ (close (γ := γ) l).notes := by
    intro l hmem
    exact absurd (mem_notes_close hmem) (by simp)
  -- on the rounds: the last arrival stays where it is, and the deadlines only move away
  fun_induction serveFrom s inbox link with
  | case1 inbox link got request hresult response sent ih =>
    obtain ⟨-, hlink, hrest, hnow⟩ := Reception.punctual_receive (γ := γ) s.config inbox hl hlast
    obtain ⟨pieces, later, hsend, -, hlater, hthen, harrivals⟩ :=
      send_of_undisturbed (γ := γ) hlink response.encode
    change sent =
      ⟨.done, later, Trace.stamp got.link.now (pieces.map .wrote ++ [.flushed])⟩ at hsend
    change link.now ≤ got.link.now at hnow
    change got.link.lastArrival = link.lastArrival at hrest
    change later.now = got.link.now at hthen
    change later.arrivals = got.link.arrivals at harrivals
    have hreceived : got.trace.notes = [] := Reception.notes_receive s.config inbox link
    have hanswered : Note.noRequestWithin timeout ∉
        (Trace.stamp got.link.now (s.respond request).2).notes := by
      rw [Trace.mem_notes_stamp]
      intro hmem
      rcases Service.mem_respond hmem with ⟨context, hran⟩ | ⟨note, hnote, hends⟩
      · exact absurd hran (by simp)
      · rw [← Event.noted.inj hnote] at hends
        exact absurd hends (by simp [Note.ends])
    have hsent : Note.noRequestWithin timeout ∉
        (Trace.stamp got.link.now (pieces.map (Event.wrote (γ := γ)) ++ [.flushed])).notes := by
      rw [Trace.mem_notes_stamp]
      simp
    have hagain : later.lastArrival ≤ later.now + s.config.requestTimeout := by
      have hsame : later.lastArrival = got.link.lastArrival := by
        rw [Link.lastArrival, Link.lastArrival, hthen, harrivals]
      omega
    rw [hsend] at ih ⊢
    simp only [Trace.notes_append, List.mem_append, hreceived, List.not_mem_nil, hanswered,
      hsent, false_or]
    split
    · exact ih hlater hagain
    · exact hclose later
  | case2 inbox link got hresult =>
    obtain ⟨hresult', -⟩ := Reception.punctual_receive (γ := γ) s.config inbox hl hlast
    have hreceived : got.trace.notes = [] := Reception.notes_receive s.config inbox link
    rw [Trace.notes_append, hreceived, List.nil_append]
    change got.result ≠ .late at hresult'
    cases h : got.result with
    | request r => exact hclose got.link
    | late => exact absurd h hresult'
    | closed => simpa [closeAfter, closeNoting, Trace.notes] using hclose got.link
    | failed cause => simpa [closeAfter, closeNoting, Trace.notes] using hclose got.link
    | stopped => simpa [closeAfter, closeNoting, Trace.notes] using hclose got.link

/-- **A patient connection is never late.** When all pauses of the peer together are no longer than
a connection waits for one request, no deadline ends the connection. -/
theorem never_late (s : Service γ) (hl : link.Undisturbed)
    (hlast : link.lastArrival ≤ link.now + s.config.requestTimeout) (timeout : Nat) :
    Note.noRequestWithin timeout ∉ (serve s link).notes :=
  never_late_serveFrom s hl hlast timeout

end Connection

end HttpEngine
