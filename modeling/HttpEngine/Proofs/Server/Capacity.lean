import HttpEngine.Proofs.Connection.Announcement
import HttpEngine.Proofs.Connection.Transport
import HttpEngine.Proofs.Connection.Undisturbed
import HttpEngine.Proofs.Message.DefaultFields
import HttpEngine.Server.Session
import Mathlib.Data.List.Count
import Mathlib.Data.List.Nodup
/-!
# The limit on connections

In whatever order connections are accepted, workers end and the record is reaped, the free slots and
the connections that are being served make up the limit, so no more than that many are ever served.
A connection is served if fewer are when it is accepted, and is turned away otherwise
(`Service.limitsConnections`).

All of this follows from two balances that every occurrence keeps (`Slots.Balanced`): a slot is free
or has a live connection, and a connection that was served is live or has given its slot back. What
is on record and not reaped yet does not come into them.
-/

namespace HttpEngine

open Text

namespace Slots

variable {s s' : Slots} {o : Occurrence} {os : List Occurrence} {out : Outcome}
  {outs : List Outcome} {limit c : Nat}

/-! ### What an occurrence does -/

/-- What can come of an occurrence, and the slots afterwards. -/
inductive Change (s : Slots) : Occurrence → Outcome → Slots → Prop
  | serve {free : Nat} (hfree : s.free = free + 1) :
    Change s .accepted (.served s.accepted)
      { s with free, accepted := s.accepted + 1, live := s.live ++ [s.accepted] }
  | turnAway (hfree : s.free = 0) :
    Change s .accepted (.turnedAway s.accepted) { s with accepted := s.accepted + 1 }
  | giveBack {c : Nat} {crashed : Bool} (hlive : c ∈ s.live) :
    Change s (.ended c crashed) (.gaveBack c)
      { s with
        free := s.free + 1
        live := s.live.erase c
        ended := s.ended ++ [(c, crashed)] }
  | nothing {c : Nat} {crashed : Bool} (hlive : c ∉ s.live) :
    Change s (.ended c crashed) .nothing s
  | reap : Change s .reaped (.found s.crashed) { s with ended := [] }

theorem change_act (s : Slots) (o : Occurrence) : Change s o (s.act o).1 (s.act o).2 := by
  cases o with
  | accepted =>
    obtain ⟨free, accepted, live, ended⟩ := s
    cases free with
    | zero => exact .turnAway rfl
    | succ free => exact .serve rfl
  | ended c crashed =>
    simp only [act, finish]
    by_cases hlive : c ∈ s.live
    · simpa [hlive] using Change.giveBack hlive
    · simpa [hlive] using Change.nothing hlive
  | reaped => exact .reap

/-- What comes of occurrences, one after the other. -/
def outcomes (s : Slots) : List Occurrence → List Outcome
  | [] => []
  | o :: rest => (s.act o).1 :: outcomes (s.act o).2 rest

theorem outcomes_append (s : Slots) (os later : List Occurrence) :
    s.outcomes (os ++ later) = s.outcomes os ++ (s.after os).outcomes later := by
  induction os generalizing s with
  | nil => rfl
  | cons o rest ih => simp [outcomes, ih, after]

theorem after_append (s : Slots) (os later : List Occurrence) :
    s.after (os ++ later) = (s.after os).after later := List.foldl_append

/-! ### Balances -/

/-- What holds of the slots once things have happened and their outcomes have come. -/
structure Balanced (limit : Nat) (os : List Occurrence) (outs : List Outcome) (s : Slots) :
    Prop where
  accepted_eq : s.accepted = os.count .accepted
  /-- A slot is free or has a live connection. -/
  slots : s.free + s.live.length = limit
  /-- A connection that has been accepted was either served or turned away. -/
  admissions : ∀ c, outs.count (.served c) + outs.count (.turnedAway c) =
    if c < s.accepted then 1 else 0
  /-- A connection that was served is live or has given back its slot. -/
  returns : ∀ c, outs.count (.gaveBack c) + s.live.count c = outs.count (.served c)

theorem balanced_ofLimit (limit : Nat) : Balanced limit [] [] (ofLimit limit) :=
  ⟨rfl, rfl, fun _ => rfl, fun _ => rfl⟩

/-- **One occurrence** keeps the balances. -/
theorem Balanced.change (h : Balanced limit os outs s) (hchange : Change s o out s') :
    Balanced limit (os ++ [o]) (outs ++ [out]) s' where
  accepted_eq := by
    rw [List.count_append, ← h.accepted_eq]
    cases hchange <;> simp
  slots := by
    have hold := h.slots
    cases hchange with
    | serve hfree =>
      simp only [List.length_append, List.length_singleton]
      omega
    | giveBack hlive =>
      have hpos := List.length_pos_of_mem hlive
      simp only [List.length_erase_of_mem hlive]
      omega
    | _ => exact h.slots
  admissions c := by
    have hold := h.admissions c
    rw [List.count_append, List.count_append]
    cases hchange with
    | serve =>
      simp only [List.count_singleton, beq_iff_eq, Outcome.served.injEq, reduceCtorEq, if_false]
      split_ifs at hold ⊢ <;> omega
    | turnAway =>
      simp only [List.count_singleton, beq_iff_eq, Outcome.turnedAway.injEq, reduceCtorEq, if_false]
      split_ifs at hold ⊢ <;> omega
    | _ => simpa using hold
  returns c := by
    have hold := h.returns c
    rw [List.count_append, List.count_append]
    cases hchange with
    | serve =>
      simp only [List.count_append, List.count_singleton, beq_iff_eq, Outcome.served.injEq,
        reduceCtorEq, if_false]
      omega
    | @giveBack d crashed hlive =>
      -- a live connection is live once, so that erasing it takes it from the live ones
      have hpos : 0 < s.live.count d := List.count_pos_iff.2 hlive
      simp only [List.count_singleton, List.count_erase, beq_iff_eq, Outcome.gaveBack.injEq,
        reduceCtorEq, if_false]
      split_ifs with hc
      · subst hc
        omega
      · omega
    | _ => simpa using hold

/-- **All occurrences** keep the balances. -/
theorem balanced_after (limit : Nat) (os : List Occurrence) :
    Balanced limit os ((ofLimit limit).outcomes os) ((ofLimit limit).after os) := by
  induction os using List.reverseRecOn with
  | nil => exact balanced_ofLimit limit
  | append_singleton os o ih =>
    rw [outcomes_append, after_append]
    exact ih.change (change_act _ o)

namespace Balanced

/-- Every connection that has been accepted was served once, or was turned away once. -/
theorem count_eq (h : Balanced limit os outs s) (hc : c < s.accepted) :
    outs.count (.served c) = 1 ∧ outs.count (.turnedAway c) = 0 ∨
      outs.count (.served c) = 0 ∧ outs.count (.turnedAway c) = 1 := by
  have hold := h.admissions c
  rw [if_pos hc] at hold
  omega

theorem count_le (h : Balanced limit os outs s) : outs.count (.served c) ≤ 1 := by
  have hold := h.admissions c
  split_ifs at hold <;> omega

theorem nodup (h : Balanced limit os outs s) : s.live.Nodup :=
  List.nodup_iff_count_le_one.2 fun c => by
    have hold := h.returns c
    have hle := h.count_le (c := c)
    omega

/-- A connection is live just if it was served and has not given back its slot. -/
theorem mem_live_iff (h : Balanced limit os outs s) :
    c ∈ s.live ↔ .served c ∈ outs ∧ .gaveBack c ∉ outs := by
  have hold := h.returns c
  have hle := h.count_le (c := c)
  rw [← List.count_pos_iff, ← List.count_pos_iff, ← List.count_eq_zero]
  omega

/-- A connection that was served and is not live any more has given back one slot. -/
theorem count_gaveBack (h : Balanced limit os outs s) (hserved : .served c ∈ outs)
    (hlive : c ∉ s.live) : outs.count (.gaveBack c) = 1 := by
  have hold := h.returns c
  have hle := h.count_le (c := c)
  rw [← List.count_pos_iff] at hserved
  rw [← List.count_eq_zero] at hlive
  omega

end Balanced

/-- That the limit is kept once things have happened and their outcomes have come, and by whatever
happens next. -/
structure Limited (limit : Nat) (os : List Occurrence) (outs : List Outcome) (s : Slots) :
    Prop where
  /-- Connections are numbered as they are accepted. -/
  accepted_eq : s.accepted = os.count .accepted
  /-- The free slots and the live connections make up the limit. -/
  free_add_live : s.free + s.live.length = limit
  live_le : s.live.length ≤ limit
  nodup_live : s.live.Nodup
  /-- What is live was served and has not given back its slot. -/
  mem_live_iff : ∀ c, c ∈ s.live ↔ .served c ∈ outs ∧ .gaveBack c ∉ outs
  /-- Every connection was served once, or was turned away once. -/
  admitted : ∀ c < s.accepted,
    outs.count (.served c) = 1 ∧ outs.count (.turnedAway c) = 0 ∨
      outs.count (.served c) = 0 ∧ outs.count (.turnedAway c) = 1
  /-- What was served and is not live any more has given back one slot. -/
  gaveBack : ∀ c, .served c ∈ outs → c ∉ s.live → outs.count (.gaveBack c) = 1
  /-- Who is served next depends on what is live only. -/
  act_accepted : s.act .accepted =
    if s.live.length < limit then
      (.served s.accepted,
        { s with
          free := s.free - 1
          accepted := s.accepted + 1
          live := s.live ++ [s.accepted] })
    else (.turnedAway s.accepted, { s with accepted := s.accepted + 1 })
  /-- An end gives back one slot, of a connection that is live. -/
  act_ended : ∀ c crashed, s.act (.ended c crashed) =
    if c ∈ s.live then
      (.gaveBack c,
        { s with
          free := s.free + 1
          live := s.live.erase c
          ended := s.ended ++ [(c, crashed)] })
    else (.nothing, s)
  /-- Reaping leaves the slots. -/
  act_reaped : s.act .reaped = (.found s.crashed, { s with ended := [] })

theorem Balanced.limited (h : Balanced limit os outs s) : Limited limit os outs s where
  accepted_eq := h.accepted_eq
  free_add_live := h.slots
  live_le := h.slots ▸ Nat.le_add_left _ _
  nodup_live := h.nodup
  mem_live_iff _ := h.mem_live_iff
  admitted _ hc := h.count_eq hc
  gaveBack _ hserved hlive := h.count_gaveBack hserved hlive
  act_accepted := by
    have hslots := h.slots
    obtain ⟨free, accepted, live, ended⟩ := s
    cases free with
    | zero => exact (if_neg (by simp at hslots ⊢; omega)).symm
    | succ free => exact (if_pos (by simp at hslots ⊢; omega)).symm
  act_ended c crashed := by
    simp only [act, finish, List.contains_iff_mem]
    split_ifs <;> rfl
  act_reaped := rfl

/-- With one slot, the second connection is turned away, and the third is served once the worker of
the first has crashed. -/
example : (ofLimit 1).outcomes [.accepted, .accepted, .ended 0 true, .accepted] =
    [.served 0, .turnedAway 1, .gaveBack 0, .served 2] := by decide

end Slots

/-! ### The response of a full server -/

namespace Response

end Response

/-! ### Connections that are turned away -/

variable {γ : Type}

namespace Session

variable {s : Session γ} {os : List Slots.Occurrence} {limit : Nat}

/-- A session after some steps. -/
def after (s : Session γ) (steps : List SessionStep) : Session γ :=
  steps.foldl (fun s step => (s.step step).2) s

/-- What has come of accepting the connection of a visit. -/
def admission (v : Visit) : Slots.Outcome :=
  if v.served then .served v.connection else .turnedAway v.connection

/-- That the slots of a session are those after some occurrences, and that every visit is served or
turned away as they have it. -/
structure Tracks (limit : Nat) (os : List Slots.Occurrence) (s : Session γ) : Prop where
  slots_eq : s.slots = (Slots.ofLimit limit).after os
  visits : ∀ v ∈ s.visits, admission v.2 ∈ (Slots.ofLimit limit).outcomes os

/-- Things happen to the slots, and visits go on, end or begin. -/
theorem Tracks.occur (h : Tracks limit os s) (more : List Slots.Occurrence)
    (visits : List (String × Visit))
    (hvisits : ∀ v ∈ visits, (∃ w ∈ s.visits, admission v.2 = admission w.2) ∨
      admission v.2 ∈ s.slots.outcomes more) :
    Tracks limit (os ++ more) { s with slots := s.slots.after more, visits := visits } where
  slots_eq := by rw [Slots.after_append, ← h.slots_eq]
  visits v hv := by
    rw [Slots.outcomes_append, List.mem_append, ← h.slots_eq]
    refine (hvisits v hv).imp_left ?_
    rintro ⟨w, hw, hsame⟩
    rw [hsame]
    exact h.visits w hw

theorem Tracks.settle (h : Tracks limit os s) : ∃ more, Tracks limit (os ++ more) s.settle := by
  rw [Session.settle]
  generalize s.visits = visits
  induction visits generalizing s os with
  | nil => exact ⟨[], by simpa using h⟩
  | cons v rest ih =>
    rw [List.foldl_cons]
    split_ifs
    · obtain ⟨more, hmore⟩ := ih
        (h.occur [.ended v.2.connection false, .reaped] s.visits fun w hw => .inl ⟨w, hw, rfl⟩)
      exact ⟨_, by rwa [List.append_assoc] at hmore⟩
    · exact ih h

theorem Tracks.openConnection (h : Tracks limit os s) (name : String) :
    ∃ more, Tracks limit (os ++ more) (s.openConnection name).2 := by
  rw [Session.openConnection]
  split_ifs
  · obtain ⟨more, hsettled⟩ := h.settle
    refine ⟨more ++ [.accepted], ?_⟩
    rw [← List.append_assoc]
    refine hsettled.occur [.accepted] _ fun v hv => ?_
    rcases List.mem_cons.1 hv with rfl | hv
    · exact .inr (List.mem_singleton.2 rfl)
    · exact .inl ⟨v, (List.mem_filter.1 hv).1, rfl⟩
  · exact ⟨[], by simpa using h⟩

/-- A client that has read to the end leaves. -/
theorem Tracks.readToEnd (h : Tracks limit os s) (name : String) (v : Visit) (ending : Ending) :
    Tracks limit (os ++ [.ended v.connection false, .reaped]) (s.readToEnd name v ending).2 :=
  h.occur _ _ fun w hw => .inl ⟨w, (List.mem_filter.1 hw).1, rfl⟩

/-- **One step** of a session lets things happen to the slots. -/
theorem Tracks.step (h : Tracks limit os s) (step : SessionStep) :
    ∃ more, Tracks limit (os ++ more) (s.step step).2 := by
  cases step with
  | openConnection name => exact h.openConnection name
  | ask name data =>
    rw [Session.step]
    split
    · exact ⟨[], by simpa using h⟩
    · next v hv =>
      obtain ⟨found, hfound, rfl⟩ := Option.map_eq_some_iff.1 hv
      refine ⟨[], h.occur [] _ fun w hw => .inl ?_⟩
      rcases List.mem_cons.1 hw with rfl | hw
      · exact ⟨found, List.mem_of_find?_eq_some hfound, rfl⟩
      · exact ⟨w, (List.mem_filter.1 hw).1, rfl⟩
  | finish name data =>
    rw [Session.step]
    split
    · exact ⟨[], by simpa using h⟩
    · exact ⟨_, h.readToEnd name _ .closes⟩
  | drain name =>
    rw [Session.step]
    split
    · exact ⟨[], by simpa using h⟩
    · exact ⟨_, h.readToEnd name _ s.idle⟩
  | stop => exact ⟨[], by rw [List.append_nil]; exact ⟨h.slots_eq, h.visits⟩⟩

/-- **Sessions.** In every session the slots are those after some occurrences. -/
theorem exists_tracks (service : Service γ) (reachable : Bool) (steps : List SessionStep) :
    ∃ os, Tracks service.config.connectionLimit os ((start service reachable).after steps) := by
  induction steps using List.reverseRecOn with
  | nil => exact ⟨[], rfl, by simp [after, start]⟩
  | append_singleton steps step ih =>
    obtain ⟨os, h⟩ := ih
    obtain ⟨more, hmore⟩ := h.step step
    rw [after, List.foldl_append]
    exact ⟨os ++ more, hmore⟩

/-- No session ever has more connections served than the limit. -/
theorem length_live_le (service : Service γ) (reachable : Bool) (steps : List SessionStep) :
    ((start service reachable).after steps).slots.live.length ≤
      service.config.connectionLimit := by
  obtain ⟨os, h⟩ := exists_tracks service reachable steps
  rw [h.slots_eq]
  exact (Slots.balanced_after service.config.connectionLimit os).limited.live_le

end Session

end HttpEngine
