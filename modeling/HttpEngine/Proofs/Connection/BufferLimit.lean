import HttpEngine.Proofs.Connection.Deadline
/-!
# The limit of the buffer is kept, and it is exact

A connection never buffers more than its limit, each read asks for at least one byte and for no more
than there is room for, and no request that is longer than the limit is taken. It fails for want of
room only when exactly as many bytes as the limit are held and they do not hold a complete request,
so a request that is no longer than the limit never makes it fail, whatever follows the request. On
a link that nothing disturbs it is received just if it is there by the deadline
(`Connection.WithinLimit`, `Connection.serve_withinLimit`).

What is held and what is asked for together stay within the limit: no step breaks this
(`Connection.Step.fits`), so no run does (`Connection.Runs.fits`). That the bytes which the trace
tells to be held are those in the buffer is followed through every look at the buffer
(`Connection.Looks.held_eq`).
-/

namespace HttpEngine

open Text

variable {γ : Type}

namespace Connection

variable {s : Service γ} {v : Standing} {p q : Phase} {t : Trace γ} {e : Event γ}
  {link link₀ : Link} {inbox : Inbox} {deadline : Nat}

/-! ### Room -/

/-- There is room for what is held, and for what a read that is under way may bring. -/
structure Fits (limit : Nat) (v : Standing) (p : Phase) : Prop where
  held : v.held.length ≤ limit
  reading : ∀ size, p = .reading size → v.held.length + size ≤ limit

theorem Step.fits (h : Step s v p e q) (hv : Fits s.config.bufferLimit v p) :
    Fits s.config.bufferLimit (v.advance e) q := by
  cases h with
  | ask hof hpos hroom =>
    refine ⟨hv.held, fun size hsize => ?_⟩
    obtain rfl := Phase.reading.inj hsize
    exact hroom
  | @arrive size bytes hsome hsize =>
    refine ⟨?_, by simp⟩
    have := hv.reading size rfl
    simp only [Standing.advance, List.length_append]
    omega
  | take hof =>
    refine ⟨?_, by simp⟩
    have := hv.held
    simp only [Standing.advance, List.length_drop]
    omega
  | finish => exact ⟨by simpa [Standing.advance] using hv.held, by simp⟩
  | _ => exact ⟨hv.held, by simp⟩

theorem Runs.fits (h : Runs s v p t q) (hv : Fits s.config.bufferLimit v p) :
    Fits s.config.bufferLimit (t.standingFrom v) q := by
  induction h with
  | nil => exact hv
  | cons hstep _ ih => exact ih (hstep.fits hv)

/-- There is room at every point of what a connection does. -/
theorem fits_of_serve {front back : Trace γ} (h : serve s link = front ++ back) :
    ∃ p, Fits s.config.bufferLimit front.standing p := by
  obtain ⟨_, hruns, -⟩ := runs_serve s link
  obtain ⟨p, hfront, -⟩ := (h ▸ hruns).split
  exact ⟨p, hfront.fits ⟨Nat.zero_le _, by simp⟩⟩

/-- What a connection does is a step, and there is room where it does it. -/
theorem step_of_serve {front back : Trace γ} {time : Nat}
    (h : serve s link = front ++ (time, e) :: back) :
    ∃ p q, Fits s.config.bufferLimit front.standing p ∧ Step s front.standing p e q := by
  obtain ⟨_, hruns, -⟩ := runs_serve s link
  obtain ⟨p, q, hfront, hstep, -⟩ := (h ▸ hruns).step_of_split
  exact ⟨p, q, hfront.fits ⟨Nat.zero_le _, by simp⟩, hstep⟩

/-- A connection fails for want of room only when its limit is reached without a request, and then
no request of at most so many bytes begins there. -/
theorem overflow_of_serve {front back : Trace γ} {time limit : Nat}
    (h : serve s link = front ++ (time, .noted (.readFailed (.tooLong limit))) :: back) :
    limit = s.config.bufferLimit ∧ front.standing.held.length = limit ∧
      Decoding.ofBytes front.standing.held = .incomplete ∧
      ∀ more r n, Decoding.ofBytes (front.standing.held ++ more) = .complete r n → limit < n := by
  obtain ⟨p, q, hfits, hstep⟩ := step_of_serve h
  cases hstep with
  | remark hnote => exact absurd hnote (by simp [Note.ends])
  | breakOff hopen hnote => exact absurd hnote (by simp [Note.breaksOff])
  | overflow hof hfull =>
    have hlength := Nat.le_antisymm hfits.held hfull
    refine ⟨rfl, hlength, hof, fun more r n hmore => ?_⟩
    rw [← hlength]
    exact Decoding.lt_of_ofBytes_of_grows (List.prefix_append _ _) hof hmore

/-! ### Looking at the buffer -/

/-- What receiving does once a read has brought bytes. -/
theorem receiveUntil_of_read {limit : Nat} {inbox' : Inbox} {later : Link} {b : UInt8}
    {bytes : List UInt8} (htake : inbox.take = (.incomplete, inbox'))
    (hroom : ¬ limit ≤ inbox'.buffer.size)
    (hread : link.read (Reception.askFor limit inbox'.buffer.size) deadline =
      (.bytes (b :: bytes), later)) :
    (Reception.receiveUntil (γ := γ) limit deadline inbox link).trace =
      [Reception.tryRead (Reception.askFor limit inbox'.buffer.size) link,
          (later.now, .arrived (b :: bytes))] ++
        (Reception.receiveUntil (γ := γ) limit deadline
          (inbox'.push (b :: bytes)) later).trace := by
  rw [Reception.receiveUntil]
  split
  · next heq => exact absurd (htake.symm.trans heq) (by simp)
  · next heq => exact absurd (htake.symm.trans heq) (by simp)
  · next inbox'' heq =>
    obtain rfl := (Prod.mk.inj (htake.symm.trans heq)).2
    rw [if_neg hroom]
    dsimp only
    split
    · next heq => exact absurd (congrArg Prod.fst (hread.symm.trans heq)) (by simp)
    · next b' bytes' later' heq =>
      obtain ⟨hbytes, rfl⟩ := Prod.mk.inj (hread.symm.trans heq)
      obtain ⟨rfl, rfl⟩ := List.cons.inj (Link.ReadResult.bytes.inj hbytes)
      rfl
    · next heq => exact absurd (congrArg Prod.fst (hread.symm.trans heq)) (by simp)
    · next heq => exact absurd (congrArg Prod.fst (hread.symm.trans heq)) (by simp)
    · next heq => exact absurd (congrArg Prod.fst (hread.symm.trans heq)) (by simp)

/-- **The looks that a connection takes at its buffer.** Having done `t`, it looks whether its inbox
holds a request, and has until a deadline for it. -/
inductive Looks (s : Service γ) (link₀ : Link) : Trace γ → Inbox → Link → Nat → Prop
  | enter {t : Trace γ} {inbox : Inbox} {link : Link} (h : Enters s link₀ t inbox link)
      (htie : ¬ link.cancels link.readTie = true) :
      Looks s link₀ t inbox link (link.now + s.config.requestTimeout)
  | again {t : Trace γ} {inbox inbox' : Inbox} {link later : Link} {deadline : Nat} {b : UInt8}
      {bytes : List UInt8} (h : Looks s link₀ t inbox link deadline)
      (htake : inbox.take = (.incomplete, inbox'))
      (hroom : ¬ s.config.bufferLimit ≤ inbox'.buffer.size)
      (hread : link.read (Reception.askFor s.config.bufferLimit inbox'.buffer.size) deadline =
        (.bytes (b :: bytes), later)) :
      Looks s link₀
        (t ++ [Reception.tryRead (Reception.askFor s.config.bufferLimit inbox'.buffer.size) link,
          (later.now, .arrived (b :: bytes))])
        (inbox'.push (b :: bytes)) later deadline

namespace Looks

/-- A connection goes on from a look at its buffer as receiving does. -/
theorem serve_eq (h : Looks s link₀ t inbox link deadline) :
    ∃ rest, serve s link₀ =
      t ++ (Reception.receiveUntil s.config.bufferLimit deadline inbox link).trace ++ rest := by
  induction h with
  | @enter t inbox link h htie =>
    have hreceive : Reception.receive (γ := γ) s.config inbox link =
        Reception.receiveUntil s.config.bufferLimit (link.now + s.config.requestTimeout) inbox
          link := by
      rw [Reception.receive, if_neg htie]
    obtain ⟨rest, hrest⟩ := receive_prefix_serveFrom s inbox link
    exact ⟨rest, by rw [h.serve_eq, ← hrest, ← hreceive, List.append_assoc]⟩
  | again h htake hroom hread ih =>
    obtain ⟨rest, hrest⟩ := ih
    refine ⟨rest, ?_⟩
    rw [hrest, receiveUntil_of_read htake hroom hread]
    simp only [List.append_assoc]

/-- The buffer holds what the trace tells to be held. -/
theorem held_eq (h : Looks s link₀ t inbox link deadline) :
    inbox.Current ∧ t.standing = { held := inbox.buffer.toList } := by
  induction h with
  | enter h htie => exact ⟨h.within.1, h.standing_eq⟩
  | again h htake hroom hread ih =>
    obtain ⟨hcurrent, hstand⟩ := ih
    obtain ⟨-, hbuffer, hnext⟩ := hcurrent.of_take_incomplete htake
    refine ⟨hnext.push _, ?_⟩
    rw [Trace.standing, Trace.standingFrom_append, ← Trace.standing, hstand, Inbox.toList_push,
      hbuffer]
    rfl

/-- Whenever a connection looks at its buffer, that is within the limit. -/
theorem size_le (h : Looks s link₀ t inbox link deadline) :
    inbox.buffer.size ≤ s.config.bufferLimit := by
  obtain ⟨rest, hrest⟩ := h.serve_eq
  rw [List.append_assoc] at hrest
  obtain ⟨p, hfits⟩ := fits_of_serve hrest
  have hheld := hfits.held
  rwa [h.held_eq.2, Array.length_toList] at hheld

end Looks

/-! ### The limit -/

/-- On a link that nothing disturbs, no round disturbs it. -/
theorem Enters.undisturbed (h : Enters s link₀ t inbox link) (hl : link₀.Undisturbed) :
    link.Undisturbed := by
  induction h with
  | start => exact hl
  | @again t inbox link r h hgot hsent hpersists ih =>
    have hfaithful := Reception.faithful_receive (γ := γ) s.config h.within.1 h.within.2 ih
    rw [Reception.Faithful, hgot] at hfaithful
    obtain ⟨n, -, -, -, -, -, hlink⟩ := hfaithful
    obtain ⟨pieces, later, hsend, -, hlater, -⟩ :=
      send_of_undisturbed (γ := γ) hlink (s.answer r).encode
    rw [hsend]
    exact hlater

/-- On a link that nothing disturbs, a request that fits the limit is received just if its last byte
is there by the deadline, and is late otherwise. -/
theorem Enters.receives (h : Enters s link₀ t inbox link) (hl : link.Undisturbed) {r : Request}
    {n : Nat} (hof : Decoding.ofBytes (inbox.buffer.toList ++ link.toArrive) = .complete r n)
    (hn : n ≤ s.config.bufferLimit) :
    (Reception.receive (γ := γ) s.config inbox link).result =
      if link.availableAt (n - inbox.buffer.size) ≤ link.now + s.config.requestTimeout then
        .request r
      else .late := by
  split
  · next hready =>
    exact (Reception.receive_of_available (γ := γ) h.within.1 hof hn hl.reads hready
      (by simp [hl.unstopped])).1
  · next hlate =>
    have hafter : ∀ r' n', Decoding.ofBytes (inbox.buffer.toList ++ link.toArrive) =
        .complete r' n' →
          link.now + s.config.requestTimeout < link.availableAt (n' - inbox.buffer.size) := by
      intro r' n' hof'
      obtain ⟨-, rfl⟩ := Decoding.complete.inj (hof'.symm.trans hof)
      exact Nat.lt_of_not_le hlate
    have hnone := (Reception.late_receive (γ := γ) h.within.1 h.within.2 hafter).1
    have hfaithful := Reception.faithful_receive (γ := γ) s.config h.within.1 h.within.2 hl
    rw [Reception.Faithful] at hfaithful
    cases hresult : (Reception.receive (γ := γ) s.config inbox link).result with
    | request r' => exact absurd hresult (hnone r')
    | late => rfl
    | _ =>
      rw [hresult] at hfaithful
      exact absurd hn (Nat.not_le.2 (hfaithful r n hof))

/-- **Keeping the limit.** What a connection on a link does, if it keeps the limit of its buffer and
makes full use of it. -/
structure WithinLimit (s : Service γ) (link : Link) : Prop where
  /-- Whenever it looks at its buffer, that is within the limit, and holds what its trace tells. -/
  buffered : ∀ t inbox later deadline, Looks s link t inbox later deadline →
    t <+: serve s link ∧ inbox.buffer.toList = t.standing.held ∧
      inbox.buffer.size ≤ s.config.bufferLimit
  /-- It never holds more bytes than the limit. -/
  held : ∀ front back : Trace γ, serve s link = front ++ back →
    front.standing.held.length ≤ s.config.bufferLimit
  /-- It reads only while it holds no complete request, and then asks for a byte at least and for
  no more than there is room for. -/
  asks : ∀ (front back : Trace γ) time size, serve s link = front ++ (time, .asked size) :: back →
    0 < size ∧ size ≤ s.config.bufferLimit - front.standing.held.length ∧
      Decoding.ofBytes front.standing.held = .incomplete
  /-- A request that it takes is held as a whole, with all that stands in front of it, and is no
  longer than the limit. -/
  takes : ∀ (front back : Trace γ) time r n, serve s link = front ++ (time, .taken r n) :: back →
    Decoding.ofBytes front.standing.held = .complete r n ∧ n ≤ s.config.bufferLimit
  /-- The request of a round is the one at the front of what is buffered and still to arrive, and
  it is no longer than the limit. -/
  received : ∀ t inbox later r, Enters s link t inbox later →
    (Reception.receive (γ := γ) s.config inbox later).result = .request r →
      ∃ n, Decoding.ofBytes (inbox.buffer.toList ++ later.toArrive) = .complete r n ∧
        n ≤ s.config.bufferLimit
  /-- It fails for want of room only when it holds just as many bytes as the limit and no complete
  request, so only if the request that they begin, if any, is longer than the limit. -/
  overflows : ∀ (front back : Trace γ) time limit,
    serve s link = front ++ (time, .noted (.readFailed (.tooLong limit))) :: back →
      limit = s.config.bufferLimit ∧ front.standing.held.length = limit ∧
        Decoding.ofBytes front.standing.held = .incomplete ∧
        ∀ more r n, Decoding.ofBytes (front.standing.held ++ more) = .complete r n → limit < n
  /-- On a link that nothing disturbs, a request that is no longer than the limit is received,
  whatever follows it, if its last byte is buffered or is there by the deadline of the round, and is
  late otherwise. -/
  dispatched : link.Undisturbed → ∀ t inbox later r n, Enters s link t inbox later →
    Decoding.ofBytes (inbox.buffer.toList ++ later.toArrive) = .complete r n →
    n ≤ s.config.bufferLimit →
      (Reception.receive (γ := γ) s.config inbox later).result =
        if later.availableAt (n - inbox.buffer.size) ≤ later.now + s.config.requestTimeout then
          .request r
        else .late

/-- **The limit is kept, and it is exact.** Every connection of every service, on every link, keeps
the limit of its buffer and makes full use of it. -/
theorem serve_withinLimit (s : Service γ) (link : Link) : WithinLimit s link where
  buffered t inbox later deadline h := by
    obtain ⟨rest, hrest⟩ := h.serve_eq
    refine ⟨⟨_, by rw [hrest, List.append_assoc]⟩, ?_, h.size_le⟩
    rw [h.held_eq.2]
  held front back h := by
    obtain ⟨p, hfits⟩ := fits_of_serve h
    exact hfits.held
  asks front back time size h := by
    obtain ⟨p, q, -, hstep⟩ := step_of_serve h
    cases hstep with
    | ask hof hpos hroom => exact ⟨hpos, by omega, hof⟩
  takes front back time r n h := by
    obtain ⟨p, q, hfits, hstep⟩ := step_of_serve h
    cases hstep with
    | take hof => exact ⟨hof, (Decoding.consumed_of_ofBytes hof).2.trans hfits.held⟩
  received t inbox later r h hr := by
    obtain ⟨n, hof, hn, -⟩ := Reception.of_receive_request h.within.1 h.within.2 hr
    exact ⟨n, hof, hn⟩
  overflows front back time limit h := overflow_of_serve h
  dispatched hl t inbox later r n h hof hn := h.receives (h.undisturbed hl) hof hn

/-- A request of eighteen bytes, with more behind it. -/
def justFits : Link where
  arrivals := [.data (Utf8.bytesOf "GET / HTTP/1.1\r\n\r\nGET /more")]

-- a buffer of just its size is enough, and one that is a byte smaller is not
example :
    (Reception.receive (γ := Unit) { bufferLimit := 18 } {} justFits).result =
        .request { method := .get, target := "/", version := .http11, fields := ∅ } ∧
      (Reception.receive (γ := Unit) { bufferLimit := 17 } {} justFits).result =
        .failed (.tooLong 17) := by
  decide +kernel

end Connection

end HttpEngine
