import HttpEngine.Proofs.Connection.Conversation
import HttpEngine.Proofs.Connection.Rounds
import HttpEngine.Proofs.Connection.Transport
/-!
# The phases of a connection

A connection receives, reads, answers, ends and closes, and in each of these **phases** it can do
some things only. What it can do depends besides on its **standing**: the bytes that have arrived
and that no request has used up, the request that is being answered, and what has been written of
the answer. The standing of a connection is read off its trace alone (`Trace.standing`).

`Connection.Step` says once what each phase allows: one constructor an event, with the conditions
under which it happens. `Connection.Runs` puts steps together. The result is that every connection,
on every link, runs (`Connection.runs_serve`), and that it runs to its end if the link settles.
What holds of all that a connection does is then proved step by step, without looking at how
receiving, sending and serving are written.
-/

namespace HttpEngine

variable {γ : Type}

/-! ### Where a connection stands -/

/-- What the trace of a connection tells of it. -/
structure Standing where
  /-- The bytes that have arrived and that no request has used up. -/
  held : List UInt8 := []
  /-- The request that is being answered. -/
  request : Option Request := none
  /-- What has been written of the answer. -/
  sent : List UInt8 := []

/-- The standing after an event. -/
def Standing.advance (v : Standing) : Event γ → Standing
  | .arrived bytes => { v with held := v.held ++ bytes }
  | .taken request consumed => ⟨v.held.drop consumed, some request, []⟩
  | .wrote bytes => { v with sent := v.sent ++ bytes }
  | .flushed => { v with request := none, sent := [] }
  | _ => v

namespace Trace

/-- The standing after a trace that begins in a standing. -/
def standingFrom (v : Standing) (t : Trace γ) : Standing := t.foldl (fun v e => v.advance e.2) v

/-- The standing of a connection that has done so much. -/
def standing (t : Trace γ) : Standing := t.standingFrom {}

theorem standingFrom_append (v : Standing) (t u : Trace γ) :
    (t ++ u).standingFrom v = u.standingFrom (t.standingFrom v) := List.foldl_append

theorem stamp_append (time : Nat) (events more : List (Event γ)) :
    stamp time (events ++ more) = stamp time events ++ stamp time more := List.map_append

end Trace

/-! ### What a connection does in a phase -/

/-- Whether a note tells that the connection is broken off: by its peer, its link, the deadline or a
stop, and not for what its buffer holds. -/
def Note.breaksOff : Note → Bool
  | .readFailed (.tooLong _) | .readFailed (.request _) => false
  | note => note.ends

namespace Connection

/-- What a connection is at. -/
inductive Phase where
  /-- It waits for a request and has no read under way. -/
  | receiving
  /-- A read of at most so many bytes is under way. -/
  | reading (size : Nat)
  /-- It answers a request. -/
  | answering
  /-- Nothing is left to do but to close. -/
  | ending
  | closed
  deriving DecidableEq, Repr

/-- **A step of a connection**: an event that happens in a standing and a phase, and the phase that
follows. -/
inductive Step (s : Service γ) (v : Standing) : Phase → Event γ → Phase → Prop
  | ask {size : Nat} (hof : Decoding.ofBytes v.held = .incomplete) (hpos : 0 < size)
      (hroom : v.held.length + size ≤ s.config.bufferLimit) :
      Step s v .receiving (.asked size) (.reading size)
  | arrive {size : Nat} {bytes : List UInt8} (hsome : bytes ≠ []) (hsize : bytes.length ≤ size) :
      Step s v (.reading size) (.arrived bytes) .receiving
  | finish {size : Nat} : Step s v (.reading size) (.arrived []) .ending
  | take {r : Request} {n : Nat} (hof : Decoding.ofBytes v.held = .complete r n) :
      Step s v .receiving (.taken r n) .answering
  | run {context : Option γ} : Step s v .answering (.ran context) .answering
  | remark {note : Note} (hnote : note.ends = false) :
      Step s v .answering (.noted note) .answering
  | write {r : Request} {piece : List UInt8} (hr : v.request = some r)
      (hpiece : v.sent ++ piece <+: (s.answer r).encode) :
      Step s v .answering (.wrote piece) .answering
  | persist {r : Request} (hr : v.request = some r) (hsent : v.sent = (s.answer r).encode)
      (hpersists : (s.answer r).persists = true) : Step s v .answering .flushed .receiving
  | depart {r : Request} (hr : v.request = some r) (hsent : v.sent = (s.answer r).encode) :
      Step s v .answering .flushed .ending
  | overflow (hof : Decoding.ofBytes v.held = .incomplete)
      (hfull : s.config.bufferLimit ≤ v.held.length) :
      Step s v .receiving (.noted (.readFailed (.tooLong s.config.bufferLimit))) .ending
  | refuse {cause : RequestError} (hof : Decoding.ofBytes v.held = .refused cause) :
      Step s v .receiving (.noted (.readFailed (.request cause))) .ending
  | breakOff {p : Phase} {note : Note} (hopen : p ≠ .closed) (hnote : note.breaksOff = true) :
      Step s v p (.noted note) .ending
  | close : Step s v .ending .closed .closed
  | remarkFailure {cause : TransportError} : Step s v .closed (.noted (.closeFailed cause)) .closed

/-- What a connection does from a standing and a phase on, and the phase that it comes to. -/
inductive Runs (s : Service γ) : Standing → Phase → Trace γ → Phase → Prop
  | nil {v : Standing} {p : Phase} : Runs s v p [] p
  | cons {v : Standing} {p q r : Phase} {time : Nat} {e : Event γ} {t : Trace γ}
      (hstep : Step s v p e q) (hruns : Runs s (v.advance e) q t r) : Runs s v p ((time, e) :: t) r

namespace Runs

variable {s : Service γ} {v : Standing} {p q r : Phase} {t u : Trace γ} {time : Nat} {e : Event γ}

theorem single (h : Step s v p e q) : Runs s v p [(time, e)] q := cons h nil

theorem append (h : Runs s v p t q) (h' : Runs s (t.standingFrom v) q u r) :
    Runs s v p (t ++ u) r := by
  induction h with
  | nil => exact h'
  | cons hstep _ ih => exact cons hstep (ih h')

/-- What a connection has done up to some point, and what it does from there on. -/
theorem split (h : Runs s v p (t ++ u) r) :
    ∃ q, Runs s v p t q ∧ Runs s (t.standingFrom v) q u r := by
  induction t generalizing v p with
  | nil => exact ⟨p, nil, h⟩
  | cons e t ih =>
    obtain _ | ⟨hstep, hruns⟩ := h
    obtain ⟨q, hfront, hback⟩ := ih hruns
    exact ⟨q, cons hstep hfront, hback⟩

/-- The step with which a connection does one of the things that it does. -/
theorem step_of_split (h : Runs s v p (t ++ (time, e) :: u) r) :
    ∃ q q', Runs s v p t q ∧ Step s (t.standingFrom v) q e q' ∧
      Runs s ((t.standingFrom v).advance e) q' u r := by
  obtain ⟨q, hfront, _ | ⟨hstep, hback⟩⟩ := h.split
  exact ⟨q, _, hfront, hstep, hback⟩

end Runs

/-! ### Receiving -/

variable {s : Service γ} {v : Standing} {p : Phase} {inbox : Inbox} {link : Link}

theorem runs_close (v : Standing) (link : Link) : Runs s v .ending (close link) .closed := by
  rw [close]
  split
  · exact .cons .close (.single .remarkFailure)
  · exact .single .close

theorem runs_closeNoting {note : Note} (h : Step s v p (.noted note) .ending) (link : Link) :
    Runs s v p (closeNoting link note) .closed :=
  .cons h (runs_close v link)

/-- What has been received leads on: with a request the connection answers it, and otherwise it
closes. -/
structure Leads (s : Service γ) (v : Standing) (got : Reception γ) (p : Phase) : Prop where
  runs : Runs s v .receiving got.trace p
  answers : ∀ r, got.result = .request r → p = .answering ∧ got.inbox.Current ∧
    got.trace.standingFrom v = ⟨got.inbox.buffer.toList, some r, []⟩
  closes : (∀ r, got.result ≠ .request r) →
    Runs s (got.trace.standingFrom v) p (closeAfter s.config got.link got.result) .closed

/-- A read that fails, is late or is stopped leads to closing. -/
theorem leads_of_ask {ask : Nat} {got : Reception γ} {cause : Note} {time : Nat}
    (hask : Step s v .receiving (.asked ask) (.reading ask))
    (htrace : got.trace = [(time, .asked ask)]) (hresult : ∀ r, got.result ≠ .request r)
    (hclose : closeAfter (γ := γ) s.config got.link got.result = closeNoting got.link cause)
    (hcause : cause.breaksOff = true) : Leads s v got (.reading ask) where
  runs := by
    rw [htrace]
    exact .single hask
  answers r hr := absurd hr (hresult r)
  closes _ := by
    rw [hclose]
    exact runs_closeNoting (.breakOff (by simp) hcause) _

/-- A connection that holds no request yet, and has room, asks for more. -/
theorem step_ask {limit : Nat} (hlimit : s.config.bufferLimit = limit) (hi : inbox.Current)
    {inbox' : Inbox} (htake : inbox.take = (.incomplete, inbox'))
    (hroom : ¬ limit ≤ inbox'.buffer.size) :
    Step s { held := inbox.buffer.toList } .receiving
      (.asked (Reception.askFor limit inbox'.buffer.size))
      (.reading (Reception.askFor limit inbox'.buffer.size)) := by
  obtain ⟨hof, hbuffer, -⟩ := hi.of_take_incomplete htake
  have hroom := Nat.lt_of_not_le hroom
  have hle := Reception.askFor_le limit inbox'.buffer.size
  refine .ask hof (Reception.askFor_pos hroom) ?_
  rw [hbuffer] at hle hroom ⊢
  simp only [Array.length_toList, hlimit]
  omega

/-- **Receiving runs.** From a current inbox, receiving leads on. -/
theorem leads_receiveUntil {limit deadline : Nat} (hlimit : s.config.bufferLimit = limit)
    (hi : inbox.Current) :
    ∃ p, Leads s { held := inbox.buffer.toList }
      (Reception.receiveUntil (γ := γ) limit deadline inbox link) p := by
  fun_induction Reception.receiveUntil (γ := γ) limit deadline inbox link with
  | case1 inbox link r n inbox' htake =>
    obtain ⟨hof, rfl⟩ := hi.of_take_complete htake
    refine ⟨.answering, .single (.take hof), fun r' hr' => ?_, fun h => absurd rfl (h r)⟩
    obtain rfl := Received.request.inj hr'
    exact ⟨rfl, Inbox.current_fresh _, by rw [toList_extract]; rfl⟩
  | case2 inbox link cause inbox' htake =>
    have hof : Decoding.ofBytes inbox.buffer.toList = .refused cause := by
      rw [← hi.fst_take, htake]
    have hstep : Step s { held := inbox.buffer.toList } .receiving
        (.noted (.readFailed (.request cause))) .ending := .refuse hof
    exact ⟨.receiving, .nil, by simp, fun _ => runs_closeNoting hstep link⟩
  | case3 inbox link inbox' htake hfull =>
    obtain ⟨hof, hbuffer, -⟩ := hi.of_take_incomplete htake
    rw [hbuffer, ← Array.length_toList, ← hlimit] at hfull
    subst hlimit
    have hstep : Step s { held := inbox.buffer.toList } .receiving
        (.noted (.readFailed (.tooLong s.config.bufferLimit))) .ending := .overflow hof hfull
    exact ⟨.receiving, .nil, by simp, fun _ => runs_closeNoting hstep link⟩
  | case4 inbox link inbox' htake hroom ask later hread =>
    have hstep := step_ask hlimit hi htake hroom
    refine ⟨.ending, .cons hstep (.single .finish), by simp, fun _ => ?_⟩
    rw [Reception.endOfStream]
    split
    · exact runs_closeNoting (.breakOff (by simp) rfl) later
    · exact runs_closeNoting (.breakOff (by simp) rfl) later
  | case5 inbox link inbox' htake hroom ask b bytes later hread ih =>
    obtain ⟨-, hbuffer, hcurrent⟩ := hi.of_take_incomplete htake
    have hstep := step_ask hlimit hi htake hroom
    have hlen := Link.length_of_read hread
    obtain ⟨p, hruns, hanswers, hcloses⟩ := ih (hcurrent.push _)
    have hheld : (inbox'.push (b :: bytes)).buffer.toList = inbox.buffer.toList ++ b :: bytes := by
      rw [Inbox.toList_push, hbuffer]
    rw [hheld] at hruns hanswers hcloses
    exact ⟨p, .cons hstep (.cons (.arrive (by simp) hlen) hruns), hanswers, hcloses⟩
  | case6 inbox link inbox' htake hroom ask cause later hread =>
    exact ⟨_, leads_of_ask (step_ask hlimit hi htake hroom) rfl (by simp) rfl rfl⟩
  | case7 inbox link inbox' htake hroom ask later hread =>
    exact ⟨_, leads_of_ask (step_ask hlimit hi htake hroom) rfl (by simp) rfl rfl⟩
  | case8 inbox link inbox' htake hroom ask later hread =>
    exact ⟨_, leads_of_ask (step_ask hlimit hi htake hroom) rfl (by simp) rfl rfl⟩

/-- What is received at the beginning of a round leads on. -/
theorem leads_receive (s : Service γ) (hi : inbox.Current) (link : Link) :
    ∃ p, Leads s { held := inbox.buffer.toList } (Reception.receive s.config inbox link) p := by
  rw [Reception.receive]
  split
  · have hstep : Step s { held := inbox.buffer.toList } .receiving
        (.noted .readCancelled) .ending := .breakOff (by simp) rfl
    exact ⟨.receiving, .nil, by simp, fun _ => runs_closeNoting hstep link⟩
  · exact leads_receiveUntil rfl hi

/-! ### Answering -/

/-- Answering a request runs flows and leaves notes, and leaves the standing as it is. -/
theorem runs_respond (v : Standing) (r : Request) (time : Nat) :
    Runs s v .answering (Trace.stamp time (s.respond r).2) .answering ∧
      (Trace.stamp time (s.respond r).2).standingFrom v = v := by
  have hstep : ∀ e ∈ (s.respond r).2, Step s v .answering e .answering ∧ v.advance e = v := by
    intro e he
    rcases Service.mem_respond he with ⟨context, rfl⟩ | ⟨note, rfl, hnote⟩
    · exact ⟨.run, rfl⟩
    · exact ⟨.remark hnote, rfl⟩
  generalize (s.respond r).2 = events at hstep ⊢
  induction events with
  | nil => exact ⟨.nil, rfl⟩
  | cons e events ih =>
    obtain ⟨he, hsame⟩ := hstep e List.mem_cons_self
    obtain ⟨hruns, hstand⟩ := ih fun e he => hstep e (List.mem_cons_of_mem _ he)
    refine ⟨.cons he ?_, ?_⟩
    · rw [hsame]
      exact hruns
    · exact (congrArg (Trace.standingFrom · _) hsame).trans hstand

theorem runs_wrote {r : Request} (hr : v.request = some r) (time : Nat)
    {pieces : List (List UInt8)} (hpieces : v.sent ++ pieces.flatten <+: (s.answer r).encode) :
    Runs s v .answering (Trace.stamp time (pieces.map .wrote)) .answering ∧
      (Trace.stamp (γ := γ) time (pieces.map .wrote)).standingFrom v =
        { v with sent := v.sent ++ pieces.flatten } := by
  induction pieces generalizing v with
  | nil => exact ⟨.nil, by rw [List.flatten_nil, List.append_nil]; rfl⟩
  | cons piece rest ih =>
    rw [List.flatten_cons, ← List.append_assoc] at hpieces ⊢
    obtain ⟨hruns, hstand⟩ := ih (v := { v with sent := v.sent ++ piece }) hr hpieces
    have hpiece := (List.prefix_append _ _).trans hpieces
    exact ⟨.cons (.write hr hpiece) hruns, hstand⟩

/-- The front of an answer is written by a connection that has written nothing of it. -/
theorem runs_front {r : Request} (held : List UInt8) (time : Nat) {pieces : List (List UInt8)}
    (hpieces : pieces.flatten <+: (s.answer r).encode) :
    Runs s ⟨held, some r, []⟩ .answering (Trace.stamp time (pieces.map .wrote)) .answering ∧
      (Trace.stamp (γ := γ) time (pieces.map .wrote)).standingFrom ⟨held, some r, []⟩ =
        ⟨held, some r, pieces.flatten⟩ := by
  rw [← List.nil_append pieces.flatten] at hpieces
  exact runs_wrote (v := ⟨held, some r, []⟩) rfl time hpieces

/-- A whole answer is flushed, and the connection can end behind it, or go on if it persists. -/
theorem runs_whole {r : Request} (held : List UInt8) (time : Nat) {pieces : List (List UInt8)}
    (hpieces : pieces.flatten = (s.answer r).encode) :
    Runs s ⟨held, some r, []⟩ .answering (Trace.stamp time (pieces.map .wrote ++ [.flushed]))
        .ending ∧
      ((s.answer r).persists = true →
        Runs s ⟨held, some r, []⟩ .answering (Trace.stamp time (pieces.map .wrote ++ [.flushed]))
          .receiving) ∧
      (Trace.stamp (γ := γ) time (pieces.map .wrote ++ [.flushed])).standingFrom
        ⟨held, some r, []⟩ = { held := held } := by
  obtain ⟨hruns, hstand⟩ := runs_front (s := s) held time (by rw [hpieces])
  rw [Trace.stamp_append, Trace.standingFrom_append, hstand]
  refine ⟨hruns.append (.single ?_), fun hpersists => hruns.append (.single ?_), rfl⟩
  · rw [hstand]
    exact .depart rfl hpieces
  · rw [hstand]
    exact .persist rfl hpieces hpersists

/-- **Answering runs.** What has been answered is sent, and the connection goes on if the rounds
behind it do. -/
theorem runs_goOn {r : Request} {sent : Sending γ}
    (hsent : sent = send link (s.answer r).encode)
    (hnext : ∃ p, Runs s { held := inbox.buffer.toList } .receiving
      (serveFrom s inbox sent.link) p ∧ (sent.link.Settles → p = .closed)) :
    ∃ p, Runs s ⟨inbox.buffer.toList, some r, []⟩ .answering
        (sent.trace ++ goOn s (s.answer r).persists inbox sent) p ∧
      (link.Settles → p = .closed) := by
  have hends (h : link.Settles) := h.send (γ := γ) (s.answer r).encode
  rw [← hsent] at hends
  obtain ⟨pieces, ⟨hall, htrace, hresult⟩ | ⟨hfront, htrace, hresult⟩⟩ :=
    send_cases (γ := γ) link (s.answer r).encode
  · -- all of the answer is written and flushed
    rw [← hsent] at htrace hresult
    obtain ⟨hends', hagain, hstand⟩ := runs_whole (s := s) inbox.buffer.toList link.now hall
    rw [← htrace] at hends' hagain hstand
    rw [goOn]
    rcases hresult with hdone | hfailed
    · rw [hdone]
      cases hpersists : (s.answer r).persists with
      | true =>
        obtain ⟨p, hrest, hclosed⟩ := hnext
        exact ⟨p, (hagain hpersists).append (hstand ▸ hrest), fun h => hclosed ((hends h).2 hdone)⟩
      | false => exact ⟨.closed, hends'.append (runs_close _ _), fun _ => rfl⟩
    · rw [hfailed]
      exact ⟨.closed, hends'.append (runs_closeNoting (.breakOff (by simp) rfl) _), fun _ => rfl⟩
  · -- sending has ended otherwise
    rw [← hsent] at htrace hresult
    obtain ⟨hruns, -⟩ := runs_front (s := s) inbox.buffer.toList link.now hfront
    rw [← htrace] at hruns
    rw [goOn]
    cases h : sent.result with
    | done => exact absurd h hresult
    | failed cause =>
      exact ⟨.closed, hruns.append (runs_closeNoting (.breakOff (by simp) rfl) _), fun _ => rfl⟩
    | stopped =>
      exact ⟨.closed, hruns.append (runs_closeNoting (.breakOff (by simp) rfl) _), fun _ => rfl⟩
    | blocked =>
      rw [List.append_nil]
      exact ⟨.answering, hruns, fun hl => absurd h (hends hl).1⟩

/-! ### Serving -/

/-- **Serving runs.** From a current inbox a connection runs, and to its end if its link settles. -/
theorem runs_serveFrom (s : Service γ) (hi : inbox.Current) (link : Link) :
    ∃ p, Runs s { held := inbox.buffer.toList } .receiving (serveFrom s inbox link) p ∧
      (link.Settles → p = .closed) := by
  -- on the rounds: the inbox that a round leaves is current, and its link settles still
  fun_induction serveFrom s inbox link with
  | case1 inbox link got request hresult response sent ih =>
    obtain ⟨p, hleads⟩ := leads_receive s hi link
    obtain ⟨rfl, hcurrent, hstand⟩ := hleads.answers request hresult
    obtain ⟨hanswers, hsame⟩ :=
      runs_respond (s := s) ⟨got.inbox.buffer.toList, some request, []⟩ request got.link.now
    obtain ⟨q, hrest, hclosed⟩ := runs_goOn (s := s) (rfl : sent = _) (ih hcurrent)
    refine ⟨q, ?_, fun h => hclosed (h.moves (Reception.moves_receive s.config inbox link))⟩
    have hround := hleads.runs.append ((hstand ▸ hanswers).append (hstand ▸ hsame ▸ hrest))
    rw [List.append_assoc, List.append_assoc]
    exact hround
  | case2 inbox link got hresult =>
    obtain ⟨p, hleads⟩ := leads_receive s hi link
    exact ⟨.closed, hleads.runs.append (hleads.closes hresult), fun _ => rfl⟩

/-- **Every connection runs**, and to its end if its link settles. -/
theorem runs_serve (s : Service γ) (link : Link) :
    ∃ p, Runs s {} .receiving (serve s link) p ∧ (link.Settles → p = .closed) :=
  runs_serveFrom s (Inbox.current_fresh _) link

end Connection

end HttpEngine
