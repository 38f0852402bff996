import HttpEngine.Proofs.Connection.Punctual
/-!
# The rounds of serving

Serving takes one **round** a request: receive it, answer it, send the answer, and go on as sending
has ended (`Connection.goOn`). What a round is, without the other ways in which receiving can end,
is `Connection.serveFrom_of_request`.

A connection looks at its service through its configuration and its answers only. What else a
service does, the contexts in which its flows run and the notes that it leaves, is not seen by the
peer: two services with the same configuration and the same answers act towards it in the same way
at the same times (`Connection.outward_serveFrom_congr`).
-/

namespace HttpEngine

variable {γ : Type}

/-! ### What a connection does towards its peer -/

/-- Whether an event is more than the running of a flow or a note for the log. -/
def Event.outward : Event γ → Bool
  | .ran _ => false
  | .noted _ => false
  | _ => true

namespace Trace

/-- What a connection does towards its peer. -/
def outward (t : Trace γ) : Trace γ := t.filter fun e => e.2.outward

@[simp] theorem outward_append (t u : Trace γ) : outward (t ++ u) = outward t ++ outward u :=
  List.filter_append t u

/-- Nothing that is written is left out. -/
@[simp] theorem written_outward (t : Trace γ) : t.outward.written = t.written := by
  induction t with
  | nil => rfl
  | cons e t ih =>
    have hcons : ∀ u : Trace γ, Trace.written (e :: u) = Trace.written [e] ++ Trace.written u :=
      fun u => written_append [e] u
    obtain ⟨time, e⟩ := e
    cases e with
    | ran => exact ih
    | noted => exact ih
    | _ => exact (hcons _).trans ((congrArg _ ih).trans (hcons _).symm)

end Trace

/-- Answering a request does nothing towards the peer. -/
theorem Service.outward_respond (s : Service γ) (request : Request) (time : Nat) :
    (Trace.stamp time (s.respond request).2).outward = [] := by
  refine List.filter_eq_nil_iff.2 fun e he => ?_
  obtain ⟨event, hevent, rfl⟩ := List.mem_map.1 he
  rcases Service.mem_respond hevent with ⟨context, rfl⟩ | ⟨note, rfl, -⟩ <;> simp [Event.outward]

/-! ### Closing -/

namespace Connection

end Connection

/-! ### A round -/

namespace Connection

/-- How serving goes on once a response that persists, or does not, has been sent. -/
def goOn (s : Service γ) (persists : Bool) (inbox : Inbox) (sent : Sending γ) : Trace γ :=
  match sent.result with
  | .done => if persists then serveFrom s inbox sent.link else close sent.link
  | .failed cause => closeNoting sent.link (.writeFailed cause)
  | .stopped => closeNoting sent.link .writeCancelled
  | .blocked => []

variable {s : Service γ} {inbox : Inbox} {link : Link} {request : Request}

/-- **A round.** A request that is received is answered, the answer is sent, and serving goes on. -/
theorem serveFrom_of_request
    (h : (Reception.receive (γ := γ) s.config inbox link).result = .request request) :
    serveFrom s inbox link =
      let got : Reception γ := Reception.receive s.config inbox link
      let sent : Sending γ := send got.link (s.answer request).encode
      got.trace ++ Trace.stamp got.link.now (s.respond request).2 ++ sent.trace ++
        goOn s (s.answer request).persists got.inbox sent := by
  rw [serveFrom]
  split
  · next request' h' =>
    obtain rfl := Received.request.inj (h.symm.trans h')
    rfl
  · next hne => exact absurd h (hne request)

/-- Receiving no request is the end of serving. -/
theorem serveFrom_of_not_request
    (h : ∀ request, (Reception.receive (γ := γ) s.config inbox link).result ≠ .request request) :
    serveFrom s inbox link =
      let got : Reception γ := Reception.receive s.config inbox link
      got.trace ++ closeAfter s.config got.link got.result := by
  rw [serveFrom]
  split
  · next request h' => exact absurd h' (h request)
  · rfl

/-- Serving begins with receiving. -/
theorem receive_prefix_serveFrom (s : Service γ) (inbox : Inbox) (link : Link) :
    (Reception.receive (γ := γ) s.config inbox link).trace <+: serveFrom s inbox link := by
  by_cases h : ∃ r, (Reception.receive (γ := γ) s.config inbox link).result = .request r
  · obtain ⟨r, hr⟩ := h
    rw [serveFrom_of_request hr]
    simp only [List.append_assoc]
    exact List.prefix_append _ _
  · rw [serveFrom_of_not_request fun r hr => h ⟨r, hr⟩]
    exact List.prefix_append _ _

/-- Going on looks the same from outside where a next round does. -/
theorem outward_goOn_congr {s' : Service γ} {sent : Sending γ} (persists : Bool)
    (h : (serveFrom s' inbox sent.link).outward = (serveFrom s inbox sent.link).outward) :
    (goOn s' persists inbox sent).outward = (goOn s persists inbox sent).outward := by
  simp only [goOn]
  cases sent.result with
  | done => cases persists with
    | true => exact h
    | false => rfl
  | _ => rfl

/-- **Serving shows the answers only.** Two services with the same configuration and the same
answers do the same towards every peer. -/
theorem outward_serveFrom_congr {s' : Service γ} (hconfig : s'.config = s.config)
    (hanswer : ∀ request, s'.answer request = s.answer request) (inbox : Inbox) (link : Link) :
    (serveFrom s' inbox link).outward = (serveFrom s inbox link).outward := by
  -- on the rounds of one service, which are those of the other
  fun_induction serveFrom s inbox link with
  | case1 inbox link got request hresult response sent ih =>
    change (Reception.receive (γ := γ) s.config inbox link).result = .request request at hresult
    rw [serveFrom_of_request (s := s') (by rw [hconfig, hresult]), hconfig, hanswer]
    simp only [Trace.outward_append, Service.outward_respond]
    exact congrArg _ (outward_goOn_congr response.persists ih)
  | case2 inbox link got hresult =>
    rw [serveFrom_of_not_request (s := s') (by rw [hconfig]; exact hresult), hconfig]

end Connection

end HttpEngine
