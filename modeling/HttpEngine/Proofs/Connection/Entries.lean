import HttpEngine.Proofs.Connection.Phases
/-!
# The rounds that a connection enters

A connection **enters** a round when it begins to wait for a request: at the beginning, and after
every answer that has been sent and persists (`Connection.Enters`). What it does from there on
depends on the inbox and the link that it enters the round with and on nothing else that it has done
before (`Connection.Enters.serve_eq`).

However the link behaves, the inbox with which a round is entered is current, is within the limit
(`Connection.Enters.within`), and holds what the trace tells (`Connection.Enters.standing_eq`). This
is because a request that is received, on any link, is the one that stands at the front of what is
buffered and still to arrive, and leaves the rest (`Reception.of_receive_request`).
-/

namespace HttpEngine

variable {γ : Type}

/-- A request that is received is the one at the front of what is buffered and still to arrive, and
leaves the rest. -/
theorem Reception.of_receive_request {config : Config} {inbox : Inbox} {link : Link} {r : Request}
    (hi : inbox.Current)
    (hsize : inbox.buffer.size ≤ config.bufferLimit)
    (h : (receive (γ := γ) config inbox link).result = .request r) :
    ∃ n, Decoding.ofBytes (inbox.buffer.toList ++ link.toArrive) = .complete r n ∧
      n ≤ config.bufferLimit ∧
      (receive (γ := γ) config inbox link).inbox.buffer.toList ++
          (receive (γ := γ) config inbox link).link.toArrive =
        (inbox.buffer.toList ++ link.toArrive).drop n ∧
      (receive (γ := γ) config inbox link).inbox.Current ∧
      (receive (γ := γ) config inbox link).inbox.buffer.size ≤ config.bufferLimit := by
  rw [receive] at h ⊢
  split at h
  · simp at h
  · next hstop =>
    rw [if_neg hstop]
    exact of_receiveUntil_request hi hsize h

/-! ### Rounds -/

namespace Connection

variable {s : Service γ} {link₀ link : Link} {inbox : Inbox} {t : Trace γ} {r : Request}

/-- What a connection does in a round in which it receives a request. -/
def round (s : Service γ) (inbox : Inbox) (link : Link) (r : Request) : Trace γ :=
  let got : Reception γ := Reception.receive s.config inbox link
  got.trace ++ Trace.stamp got.link.now (s.respond r).2 ++
    (send got.link (s.answer r).encode).trace

/-- **The rounds of a connection.** Having done `t`, it begins to wait for a request, with an inbox
and a link. -/
inductive Enters (s : Service γ) (link₀ : Link) : Trace γ → Inbox → Link → Prop
  | start : Enters s link₀ [] {} link₀
  | again {t : Trace γ} {inbox : Inbox} {link : Link} {r : Request}
      (h : Enters s link₀ t inbox link)
      (hgot : (Reception.receive (γ := γ) s.config inbox link).result = .request r)
      (hsent : (send (γ := γ) (Reception.receive (γ := γ) s.config inbox link).link
        (s.answer r).encode).result = .done)
      (hpersists : (s.answer r).persists = true) :
      Enters s link₀ (t ++ round s inbox link r)
        (Reception.receive (γ := γ) s.config inbox link).inbox
        (send (γ := γ) (Reception.receive (γ := γ) s.config inbox link).link
          (s.answer r).encode).link

/-- A round leaves the standing that its inbox tells. -/
theorem standing_round (hi : inbox.Current)
    (hgot : (Reception.receive (γ := γ) s.config inbox link).result = .request r)
    (hsent : (send (γ := γ) (Reception.receive (γ := γ) s.config inbox link).link
      (s.answer r).encode).result = .done) :
    (round s inbox link r).standingFrom { held := inbox.buffer.toList } =
      { held := (Reception.receive (γ := γ) s.config inbox link).inbox.buffer.toList } := by
  obtain ⟨p, hleads⟩ := leads_receive s hi link
  obtain ⟨-, -, hstand⟩ := hleads.answers r hgot
  obtain ⟨pieces, ⟨hall, htrace, -⟩ | ⟨-, -, hne⟩⟩ :=
    send_cases (γ := γ) (Reception.receive (γ := γ) s.config inbox link).link (s.answer r).encode
  · rw [round, Trace.standingFrom_append, Trace.standingFrom_append, hstand,
      (runs_respond (s := s) _ r _).2, htrace]
    exact (runs_whole (s := s) _ _ hall).2.2
  · exact absurd hsent hne

namespace Enters

/-- **A round begins afresh.** What a connection does from a round on is what it does with the inbox
and the link of the round. -/
theorem serve_eq (h : Enters s link₀ t inbox link) :
    serve s link₀ = t ++ serveFrom s inbox link := by
  induction h with
  | start => rfl
  | again h hgot hsent hpersists ih =>
    rw [ih, serveFrom_of_request hgot]
    simp only [goOn, hsent, hpersists, if_true, round, List.append_assoc]

/-- A round is entered with a current inbox within the limit. -/
theorem within (h : Enters s link₀ t inbox link) :
    inbox.Current ∧ inbox.buffer.size ≤ s.config.bufferLimit := by
  induction h with
  | start => exact ⟨Inbox.current_fresh _, Nat.zero_le _⟩
  | again h hgot hsent hpersists ih =>
    obtain ⟨n, -, -, -, hcurrent, hsize⟩ := Reception.of_receive_request ih.1 ih.2 hgot
    exact ⟨hcurrent, hsize⟩

/-- The trace tells what the inbox holds when a round is entered. -/
theorem standing_eq (h : Enters s link₀ t inbox link) :
    t.standing = { held := inbox.buffer.toList } := by
  induction h with
  | start => rfl
  | again h hgot hsent hpersists ih =>
    rw [Trace.standing, Trace.standingFrom_append]
    exact (congrArg (Trace.standingFrom · _) ih).trans (standing_round h.within.1 hgot hsent)

end Enters

end Connection

end HttpEngine
