import HttpEngine.Connection.Serve
import Mathlib.Data.Nat.Init
/-!
# What every link keeps to

However a link is disturbed, some things hold of it. A wait ends in one of three ways
(`Link.await_cases`). A read returns no more bytes than it is asked for (`Link.length_of_read`), and
what it changes of the link is bounded: the arrivals are used up, time moves on but neither past the
deadline nor past a stop, and a stop that was raised stays raised (`Link.Moves`, `Link.moves_read`).
A write takes the bytes from the front, and all of them if it succeeds (`Link.writeAll_pieces`).

A link **settles** when no write on it blocks for ever: each succeeds, fails, or is ended by a stop
(`Link.Settles`). Reading leaves a link settling, and so does a response that has been sent. So
every response that is sent on such a link comes to an end (`Link.Settles.send`).
-/

namespace HttpEngine

namespace Link

variable {l m k : Link} {limit deadline : Nat} {bytes : List UInt8}

/-! ### Waiting -/

/-- A stop is taken at once if it is due and goes first. -/
theorem cancels_eq_true_iff {tie : Tie} :
    l.cancels tie = true ↔
      ∃ stop, l.stopAt = some stop ∧ stop ≤ l.now ∧ l.stopFirst tie = true := by
  rw [cancels, stopped]
  cases l.stopAt <;> simp

/-- A time that a wait may last to: it does not outlast a stop, and comes before the stop if that
goes first. -/
def Precedes (l : Link) (t : Nat) : Prop :=
  ∀ stop, l.stopAt = some stop →
    t ≤ max stop l.now ∧ (l.stopFirst l.readTie = true → t < max stop l.now)

/-- A stop ends a wait, or makes no difference to it and is not outlasted by it. -/
theorem wake_of_stop (l : Link) (ready : Option Nat) (deadline : Nat) :
    (l.wake ready deadline = ({ l with stopAt := none } : Link).wake ready deadline ∧
      l.Precedes (({ l with stopAt := none } : Link).wake ready deadline).2) ∨
      ∃ stop, l.stopAt = some stop ∧
        max stop l.now ≤ (({ l with stopAt := none } : Link).wake ready deadline).2 ∧
        l.wake ready deadline = (.stopped, max stop l.now) := by
  unfold wake Precedes
  cases hstop : l.stopAt with
  | none => exact .inl ⟨rfl, by simp⟩
  | some stop =>
    by_cases h : max stop l.now < (({ l with stopAt := none } : Link).wake ready deadline).2 ∨
        (max stop l.now = (({ l with stopAt := none } : Link).wake ready deadline).2 ∧
          l.stopFirst l.readTie = true)
    · exact .inr ⟨stop, rfl, h.elim Nat.le_of_lt fun htie => Nat.le_of_eq htie.1, if_pos h⟩
    · refine .inl ⟨if_neg h, fun stop' hstop' => ?_⟩
      obtain rfl := Option.some.inj hstop'
      rw [not_or, Nat.not_lt, not_and] at h
      exact ⟨h.1, fun hfirst => Nat.lt_of_le_of_ne h.1 fun heq => h.2 heq.symm hfirst⟩

/-- **The ends of a wait.** What is waited for is ready no later than the deadline and any stop, or
the deadline passes, or a stop is taken. -/
theorem await_cases (l : Link) (ready : Option Nat) (deadline : Nat)
    (act : Link → ReadResult × Link) :
    (∃ t, ready = some t ∧ t ≤ deadline ∧ l.Precedes t ∧
        l.await ready deadline act = act { l with now := t }) ∨
      (l.Precedes deadline ∧ l.await ready deadline act = (.late, { l with now := deadline })) ∨
      ∃ stop, l.stopAt = some stop ∧ max stop l.now ≤ deadline ∧
        l.await ready deadline act = (.stopped, { l with now := max stop l.now }) := by
  -- without a stop, a wait ends by the deadline
  have hunstopped : (∃ t, ready = some t ∧ t ≤ deadline ∧
        ({ l with stopAt := none } : Link).wake ready deadline = (.ready, t)) ∨
      ({ l with stopAt := none } : Link).wake ready deadline = (.late, deadline) := by
    cases ready with
    | none => exact .inr rfl
    | some t =>
      by_cases ht : t ≤ deadline
      · exact .inl ⟨t, rfl, ht, if_pos ht⟩
      · exact .inr (if_neg ht)
  rcases l.wake_of_stop ready deadline with ⟨h, hprecedes⟩ | ⟨stop, hstop, hle, h⟩
  · rcases hunstopped with ⟨t, hready, ht, hwake⟩ | hwake
    · rw [hwake] at h hprecedes
      exact .inl ⟨t, hready, ht, hprecedes, by rw [await, h]⟩
    · rw [hwake] at h hprecedes
      exact .inr (.inl ⟨hprecedes, by rw [await, h]⟩)
  · refine .inr (.inr ⟨stop, hstop, ?_, by rw [await, h]⟩)
    rcases hunstopped with ⟨t, -, ht, hwake⟩ | hwake
    · rw [hwake] at hle
      omega
    · rw [hwake] at hle
      omega

/-- What is ready by the deadline and before a stop is waited for. -/
theorem await_of_ready {t : Nat} {act : Link → ReadResult × Link} (ht : t ≤ deadline)
    (hstop : ∀ stop, l.stopAt = some stop → t < stop) :
    l.await (some t) deadline act = act { l with now := t } := by
  have hready : ({ l with stopAt := none } : Link).wake (some t) deadline = (.ready, t) := if_pos ht
  rcases l.wake_of_stop (some t) deadline with ⟨h, -⟩ | ⟨stop, hat, hle, -⟩
  · rw [await, h, hready]
  · rw [hready] at hle
    have := hstop stop hat
    omega

/-- A wait that ends with bytes has gone on with what was waited for, in time. -/
theorem of_await_bytes {ready : Option Nat} {act : Link → ReadResult × Link}
    (h : l.await ready deadline act = (.bytes bytes, m)) :
    ∃ t, ready = some t ∧ t ≤ deadline ∧ l.Precedes t ∧
      act { l with now := t } = (.bytes bytes, m) := by
  rcases l.await_cases ready deadline act with
    ⟨t, hready, ht, hprecedes, hgo⟩ | ⟨-, hlate⟩ | ⟨stop, -, -, hstop⟩
  · exact ⟨t, hready, ht, hprecedes, hgo.symm.trans h⟩
  · exact absurd (hlate.symm.trans h) (by simp)
  · exact absurd (hstop.symm.trans h) (by simp)

/-! ### Reading -/

/-- A read returns no more bytes than it is asked for. -/
theorem length_of_readFrom {arrivals : List Arrival}
    (h : readFrom limit deadline arrivals l = (.bytes bytes, m)) : bytes.length ≤ limit := by
  induction arrivals generalizing l with
  | nil =>
    rw [readFrom, readEnd] at h
    split at h
    all_goals
      obtain ⟨t, ht⟩ := of_await h
      simp only [Prod.mk.injEq, ReadResult.bytes.injEq, reduceCtorEq, false_and] at ht
    rw [← ht.1]
    exact Nat.zero_le _
  | cons a rest ih =>
    cases a with
    | data piece =>
      rw [readFrom] at h
      split at h
      · exact ih h
      · obtain ⟨t, ht⟩ := of_await h
        simp only [Prod.mk.injEq, ReadResult.bytes.injEq] at ht
        rw [← ht.1, List.length_take, readSize]
        omega
    | pause duration =>
      rw [readFrom] at h
      obtain ⟨t, ht⟩ := of_await h
      exact ih ht

theorem length_of_read (h : l.read limit deadline = (.bytes bytes, m)) : bytes.length ≤ limit :=
  length_of_readFrom h

/-- **What waiting changes** of a link: arrivals are used up, time moves on but neither past the
deadline nor past a stop, and a stop is never taken back. -/
structure Moves (deadline : Nat) (l m : Link) : Prop where
  frame : m = { l with arrivals := m.arrivals, now := m.now, stopAt := m.stopAt }
  punctual : m.now ≤ max deadline l.now
  heeds : ∀ stop, l.stopAt = some stop → m.now ≤ max stop l.now
  keeps : ∀ stop, l.stopAt = some stop → ∃ stop' ≤ stop, m.stopAt = some stop'

namespace Moves

theorem refl (deadline : Nat) (l : Link) : Moves deadline l l :=
  ⟨rfl, Nat.le_max_right _ _, fun _ _ => Nat.le_max_right _ _, fun stop h => ⟨stop, Nat.le_refl _, h⟩⟩

theorem trans (h : Moves deadline l m) (h' : Moves deadline m k) : Moves deadline l k where
  frame := by
    calc
      k = { m with arrivals := k.arrivals, now := k.now, stopAt := k.stopAt } := h'.frame
      _ = { l with arrivals := k.arrivals, now := k.now, stopAt := k.stopAt } := by rw [h.frame]
  punctual := by
    have := h.punctual
    have := h'.punctual
    omega
  heeds stop hstop := by
    obtain ⟨stop', hle, hstop'⟩ := h.keeps stop hstop
    have := h.heeds stop hstop
    have := h'.heeds stop' hstop'
    omega
  keeps stop hstop := by
    obtain ⟨stop', hle, hstop'⟩ := h.keeps stop hstop
    obtain ⟨stop'', hle', hstop''⟩ := h'.keeps stop' hstop'
    exact ⟨stop'', Nat.le_trans hle' hle, hstop''⟩

/-- A stop that is known of stays known of. -/
theorem stopAt_ne_none (h : Moves deadline l m) (hl : l.stopAt ≠ none) : m.stopAt ≠ none := by
  obtain ⟨stop, hstop⟩ := Option.ne_none_iff_exists'.1 hl
  obtain ⟨stop', -, hstop'⟩ := h.keeps stop hstop
  simp [hstop']

/-- Time that passes up to the deadline or a stop, with some of the arrivals used up. -/
theorem pass {t : Nat} (ht : t ≤ max deadline l.now)
    (hstop : ∀ stop, l.stopAt = some stop → t ≤ max stop l.now) (arrivals : List Arrival) :
    Moves deadline l { l with now := t, arrivals := arrivals } :=
  ⟨rfl, ht, hstop, fun stop h => ⟨stop, Nat.le_refl _, h⟩⟩

/-- Some of the arrivals are used up at once. -/
theorem drop (deadline : Nat) (l : Link) (arrivals : List Arrival) :
    Moves deadline l { l with arrivals := arrivals } :=
  pass (Nat.le_max_right _ _) (fun _ _ => Nat.le_max_right _ _) arrivals

/-- A wait moves a link as what follows it does. -/
theorem await {ready : Option Nat} {act : Link → ReadResult × Link}
    (hact : ∀ t, t ≤ deadline → Moves deadline { l with now := t } (act { l with now := t }).2) :
    Moves deadline l (l.await ready deadline act).2 := by
  rcases l.await_cases ready deadline act with
    ⟨t, -, ht, hprecedes, hgo⟩ | ⟨hprecedes, hlate⟩ | ⟨stop, hat, ht, hstop⟩
  · rw [hgo]
    exact (pass (Nat.le_trans ht (Nat.le_max_left _ _)) (fun stop h => (hprecedes stop h).1)
      l.arrivals).trans (hact t ht)
  · rw [hlate]
    exact pass (Nat.le_max_left _ _) (fun stop h => (hprecedes stop h).1) l.arrivals
  · rw [hstop]
    refine pass (by omega) (fun stop' hat' => ?_) l.arrivals
    obtain rfl := Option.some.inj (hat.symm.trans hat')
    exact Nat.le_refl _

theorem raiseStop (deadline : Nat) (l : Link) : Moves deadline l l.raiseStop := by
  rw [Link.raiseStop]
  split
  · refine ⟨rfl, Nat.le_max_right _ _, fun _ _ => Nat.le_max_right _ _, fun stop hstop => ?_⟩
    exact ⟨min stop l.now, Nat.min_le_left _ _, by simp [hstop]⟩
  · exact refl deadline l

theorem readEnd (deadline : Nat) (l : Link) : Moves deadline l (l.readEnd deadline).2 := by
  rw [Link.readEnd]
  split
  · exact await fun t _ => refl _ _
  · exact await fun t _ => refl _ _
  · exact await fun t _ => refl _ _
  · split
    · exact (raiseStop deadline l).trans (await fun t _ => refl _ _)
    · exact await fun t _ => refl _ _

end Moves

theorem moves_readFrom (limit deadline : Nat) (arrivals : List Arrival) (l : Link) :
    Moves deadline l (readFrom limit deadline arrivals l).2 := by
  induction arrivals generalizing l with
  | nil => exact Moves.readEnd deadline l
  | cons a rest ih =>
    cases a with
    | data piece =>
      rw [readFrom]
      split
      · exact (Moves.drop deadline l rest).trans (ih _)
      · exact Moves.await fun t _ => Moves.drop _ _ _
    | pause duration => exact Moves.await fun t _ => (Moves.drop _ _ rest).trans (ih _)

/-- A read moves a link no further than to its deadline and to a stop. -/
theorem moves_read (limit deadline : Nat) (l : Link) :
    Moves deadline l (l.read limit deadline).2 :=
  moves_readFrom limit deadline l.arrivals l

theorem moves_of_read {result : ReadResult} (h : l.read limit deadline = (result, m)) :
    Moves deadline l m := by
  have hmoves := moves_read limit deadline l
  rwa [h] at hmoves

/-- A link on which a stop goes first wherever it is due. -/
def Prompt (l : Link) : Prop := ∀ tie, l.stopFirst tie = true

/-- A read that returns bytes leaves a stop where it is, and returns them before one that goes
first. -/
theorem unstopped_of_readFrom {arrivals : List Arrival}
    (h : readFrom limit deadline arrivals l = (.bytes bytes, m)) :
    m.stopAt = l.stopAt ∧
      (l.Prompt → ∀ stop, l.stopAt = some stop → m.now < max stop l.now) := by
  induction arrivals generalizing l with
  | nil =>
    rw [readFrom, readEnd] at h
    split at h
    all_goals
      obtain ⟨t, -, -, hprecedes, ht⟩ := of_await_bytes h
      simp only [Prod.mk.injEq, ReadResult.bytes.injEq, reduceCtorEq, false_and] at ht
    rw [← ht.2]
    exact ⟨rfl, fun hprompt stop hstop => (hprecedes stop hstop).2 (hprompt _)⟩
  | cons a rest ih =>
    cases a with
    | data piece =>
      rw [readFrom] at h
      split at h
      · have hrest := ih h
        exact hrest
      · obtain ⟨t, -, -, hprecedes, ht⟩ := of_await_bytes h
        obtain ⟨-, rfl⟩ := Prod.mk.inj ht
        exact ⟨rfl, fun hprompt stop hstop => (hprecedes stop hstop).2 (hprompt _)⟩
    | pause duration =>
      rw [readFrom] at h
      obtain ⟨t, -, -, hprecedes, ht⟩ := of_await_bytes h
      obtain ⟨hsame, hbefore⟩ := ih ht
      refine ⟨hsame, fun hprompt stop hstop => ?_⟩
      have hpause := (hprecedes stop hstop).1
      have hrest : m.now < max stop t := hbefore hprompt stop hstop
      omega

theorem unstopped_of_read (h : l.read limit deadline = (.bytes bytes, m)) :
    m.stopAt = l.stopAt ∧ (l.Prompt → ∀ stop, l.stopAt = some stop → m.now < max stop l.now) :=
  unstopped_of_readFrom h

/-! ### Writing -/

/-- A write that blocks is stopped, or lasts for ever. -/
theorem fst_block (l : Link) : l.block.1 = if l.stopAt = none then .blocked else .stopped := by
  rw [block]
  cases l.stopAt <;> rfl

theorem fst_block_ne_done (l : Link) : l.block.1 ≠ .done := by
  rw [fst_block]
  split <;> simp

/-- The pieces that are written are the front of the bytes, and all of them if writing succeeds. -/
theorem writeAll_pieces (l : Link) (bytes : List UInt8) :
    (l.writeAll bytes).2.1.flatten <+: bytes ∧
      ((l.writeAll bytes).1 = .done → (l.writeAll bytes).2.1.flatten = bytes) := by
  fun_induction writeAll l bytes with
  | case1 l => exact ⟨List.nil_prefix, fun _ => rfl⟩
  | case4 l => exact ⟨List.nil_prefix, fun h => absurd h (fst_block_ne_done _)⟩
  | case5 l => exact ⟨List.nil_prefix, fun h => absurd h (fst_block_ne_done _)⟩
  | case7 l b rest h => simp
  | case8 l b rest n h piece later ih =>
    have hsplit : b :: rest = piece ++ rest.drop n := by
      rw [List.cons_append, List.take_append_drop]
    rw [List.flatten_cons, hsplit, List.prefix_append_right_inj]
    exact ⟨ih.1, fun hdone => by rw [ih.2 hdone]⟩
  | _ => simp

/-- Writing that succeeds counts what is written, and takes no time. -/
theorem writeAll_done (h : (l.writeAll bytes).1 = .done) :
    ∃ written, (l.writeAll bytes).2.2 = { l with written := written } := by
  fun_induction writeAll l bytes with
  | case1 l => exact ⟨l.written, rfl⟩
  | case4 l => exact absurd h (fst_block_ne_done _)
  | case5 l => exact absurd h (fst_block_ne_done _)
  | case7 l b rest hoffer => exact ⟨_, rfl⟩
  | case8 l b rest n hoffer piece later ih =>
    obtain ⟨written, hlater⟩ := ih h
    exact ⟨written, hlater⟩
  | _ => simp at h

/-- A link on which every write comes to an end: one that blocks is ended by a stop. -/
structure Settles (l : Link) : Prop where
  blocks : ∀ written, l.offer written = .blocks → l.stopAt ≠ none
  stops : ∀ written, l.offer written = .stops → l.heedsStop = true ∨ l.stopAt ≠ none

namespace Settles

theorem moves (h : l.Settles) (hm : Moves deadline l m) : m.Settles where
  blocks written hoffer := hm.stopAt_ne_none (h.blocks written (by rw [← hoffer, hm.frame]))
  stops written hoffer := by
    have hheeds : m.heedsStop = l.heedsStop := by rw [hm.frame]
    rw [hheeds]
    exact (h.stops written (by rw [← hoffer, hm.frame])).imp_right hm.stopAt_ne_none

/-- Writing comes to an end. -/
theorem writeAll (h : l.Settles) (bytes : List UInt8) : (l.writeAll bytes).1 ≠ .blocked := by
  have hblock : ∀ l : Link, l.stopAt ≠ none → l.block.1 ≠ .blocked := fun l hl => by
    rw [fst_block, if_neg hl]
    simp
  fun_induction Link.writeAll l bytes with
  | case4 l b rest hoffer => exact hblock l (h.blocks _ hoffer)
  | case5 l b rest hoffer =>
    refine hblock l.raiseStop ?_
    rcases h.stops _ hoffer with hheeds | hstop
    · rw [raiseStop, if_pos hheeds]
      simp
    · exact (Moves.raiseStop 0 l).stopAt_ne_none hstop
  | case8 l b rest n hoffer piece later ih => exact ih ⟨h.blocks, h.stops⟩
  | _ => simp

end Settles

end Link

/-! ### Receiving a request -/

namespace Reception

variable {γ : Type} {link : Link}

/-- The end of the stream is no request. -/
@[simp] theorem endOfStream_ne_request (inbox : Inbox) (r : Request) :
    endOfStream inbox ≠ .request r := by
  rw [endOfStream]
  split <;> simp

/-- **What reads keep, receiving keeps.** If what holds of a link still holds once a read has
returned bytes, and tells something of its time, then that is so of every time at which something
happens in receiving, and it holds still when a request is received. -/
theorem times_of_receiveUntil (limit deadline : Nat) (inbox : Inbox) {P : Link → Prop}
    {Q : Nat → Prop} (hlink : P link) (htime : ∀ l, P l → Q l.now)
    (hread : ∀ l m ask bytes, P l → l.read ask deadline = (.bytes bytes, m) → P m) :
    (∀ e ∈ (receiveUntil (γ := γ) limit deadline inbox link).trace, Q e.1) ∧
      ∀ r, (receiveUntil (γ := γ) limit deadline inbox link).result = .request r →
        P (receiveUntil (γ := γ) limit deadline inbox link).link := by
  fun_induction receiveUntil (γ := γ) limit deadline inbox link with
  | case1 inbox link r n inbox' htake => exact ⟨by simpa using htime link hlink, fun _ _ => hlink⟩
  | case2 | case3 => exact ⟨by simp, by simp⟩
  | case4 inbox link inbox' htake hroom ask later hbytes =>
    have hlater := htime later (hread link later ask [] hlink hbytes)
    exact ⟨by simpa [tryRead] using ⟨htime link hlink, hlater⟩, by simp⟩
  | case5 inbox link inbox' htake hroom ask b bytes later hbytes ih =>
    have hlater := hread link later ask _ hlink hbytes
    obtain ⟨htimes, hrequest⟩ := ih hlater
    have hfirst : ∀ e ∈ [tryRead (γ := γ) ask link, (later.now, .arrived (b :: bytes))],
        Q e.1 := by
      simpa [tryRead] using ⟨htime link hlink, htime later hlater⟩
    refine ⟨fun e he => ?_, hrequest⟩
    rcases List.mem_append.1 he with he | he
    · exact hfirst e he
    · exact htimes e he
  | _ => exact ⟨by simpa [tryRead] using htime _ hlink, by simp⟩

/-- Receiving moves a link no further than to its deadline and to a stop. -/
theorem moves_receiveUntil (limit deadline : Nat) (inbox : Inbox) (link : Link) :
    Link.Moves deadline link (receiveUntil (γ := γ) limit deadline inbox link).link := by
  fun_induction receiveUntil (γ := γ) limit deadline inbox link with
  | case1 | case2 | case3 => exact Link.Moves.refl _ _
  | case5 inbox link inbox' htake hroom ask b bytes later hread ih =>
    exact (Link.moves_of_read hread).trans ih
  | case4 inbox link inbox' htake hroom ask later hread => exact Link.moves_of_read hread
  | case6 inbox link inbox' htake hroom ask cause later hread => exact Link.moves_of_read hread
  | case7 inbox link inbox' htake hroom ask later hread => exact Link.moves_of_read hread
  | case8 inbox link inbox' htake hroom ask later hread => exact Link.moves_of_read hread

theorem moves_receive (config : Config) (inbox : Inbox) (link : Link) :
    Link.Moves (link.now + config.requestTimeout) link
      (receive (γ := γ) config inbox link).link := by
  rw [receive]
  split
  · exact Link.Moves.refl _ _
  · exact moves_receiveUntil _ _ inbox link

end Reception

/-! ### Sending a response -/

namespace Connection

variable {γ : Type}

/-- **What sending comes to.** All of the response is written and it is flushed, or a part of it is
written and sending has ended otherwise. -/
theorem send_cases (link : Link) (bytes : List UInt8) :
    ∃ pieces : List (List UInt8),
      (pieces.flatten = bytes ∧
        (send (γ := γ) link bytes).trace =
          Trace.stamp link.now (pieces.map .wrote ++ [.flushed]) ∧
        ((send (γ := γ) link bytes).result = .done ∨
          (send (γ := γ) link bytes).result = .failed .connectionAborted)) ∨
      (pieces.flatten <+: bytes ∧
        (send (γ := γ) link bytes).trace = Trace.stamp link.now (pieces.map .wrote) ∧
        (send (γ := γ) link bytes).result ≠ .done) := by
  obtain ⟨hfront, hall⟩ := link.writeAll_pieces bytes
  rw [send]
  split
  · exact ⟨[], .inr ⟨List.nil_prefix, rfl, by simp⟩⟩
  · split
    · next pieces later hwrite =>
      rw [hwrite] at hall
      refine ⟨pieces, .inl ⟨hall rfl, rfl, ?_⟩⟩
      dsimp only
      split
      · exact .inr rfl
      · exact .inl rfl
    · next result pieces later hne hwrite =>
      rw [hwrite] at hfront
      exact ⟨pieces, .inr ⟨hfront, rfl, hne⟩⟩

/-- Sending that succeeds was not stopped, counts what is written, and takes no time. -/
theorem send_done {link : Link} {bytes : List UInt8}
    (h : (send (γ := γ) link bytes).result = .done) :
    ∃ written, (send (γ := γ) link bytes).link = { link with written := written } := by
  rw [send] at h ⊢
  split at h
  · simp at h
  · next hstopped =>
    rw [if_neg hstopped]
    split at h
    · next pieces later hwrite =>
      have hdone : ∃ written, (link.writeAll bytes).2.2 = { link with written := written } :=
        Link.writeAll_done (by rw [hwrite])
      rw [hwrite] at hdone
      exact hdone
    · next result pieces later hne hwrite => exact absurd h hne

end Connection

/-- On a link that settles, sending comes to an end, and the link settles still. -/
theorem Link.Settles.send {γ : Type} {link : Link} (h : link.Settles) (bytes : List UInt8) :
    (Connection.send (γ := γ) link bytes).result ≠ .blocked ∧
      ((Connection.send (γ := γ) link bytes).result = .done →
        (Connection.send (γ := γ) link bytes).link.Settles) := by
  have hends := h.writeAll bytes
  refine ⟨?_, fun hdone => ?_⟩
  · rw [Connection.send]
    split
    · simp
    · split
      · dsimp only
        split <;> simp
      · next result pieces later hne hwrite =>
        rw [hwrite] at hends
        exact hends
  · obtain ⟨written, hlater⟩ := Connection.send_done hdone
    rw [hlater]
    exact ⟨h.blocks, h.stops⟩

end HttpEngine
