import HttpEngine.Intake.Inbox
import HttpEngine.Proofs.Intake.Resumption
/-!
# Inboxes that are as good as fresh

An inbox is **current** when its decoder, wherever it stands, decodes every buffer that the inbox
may grow into as a fresh decoder does. An empty inbox is current, bytes that arrive keep it so, and
so does taking: what a current inbox takes is what its bytes make by themselves
(`Current.take_complete`, `Current.take_refused`, `Current.take_incomplete`), and what it leaves is
current again, with the bytes of a request gone from the front.
-/

namespace HttpEngine

namespace Inbox

/-- The decoder decodes whatever the buffer may grow into as a fresh one does. -/
def Current (i : Inbox) : Prop :=
  ∀ c : Buffer, i.buffer.toList <+: c.toList → i.decoder.decode c = Decoder.fresh.decode c

theorem current_fresh (buffer : Buffer) : Current ⟨buffer, Decoder.fresh⟩ := fun _ _ => rfl

namespace Current

variable {i : Inbox}

/-- Bytes that arrive leave an inbox current. -/
theorem push (hi : i.Current) (bytes : List UInt8) : (i.push bytes).Current := by
  intro c hc
  rw [toList_push] at hc
  exact hi c ((List.prefix_append _ _).trans hc)

/-- A current inbox decodes its bytes as they are decoded by themselves. -/
theorem decode_eq (hi : i.Current) : i.decoder.decode i.buffer = Decoder.fresh.decode i.buffer :=
  hi i.buffer (List.prefix_refl _)

/-- A request is taken with its bytes, and the decoder starts over. -/
theorem take_complete (hi : i.Current) {r : Request} {n : Nat}
    (h : Decoding.ofBytes i.buffer.toList = .complete r n) :
    i.take = (.complete r n, ⟨i.buffer.extract n, Decoder.fresh⟩) := by
  rw [take, hi.decode_eq, Decoder.decode_fresh_of_decided h (by simp)]

theorem take_refused (hi : i.Current) {cause : RequestError}
    (h : Decoding.ofBytes i.buffer.toList = .refused cause) :
    i.take = (.refused cause, ⟨i.buffer, Decoder.fresh⟩) := by
  rw [take, hi.decode_eq, Decoder.decode_fresh_of_decided h (by simp)]

/-- Where more bytes are needed nothing is taken, and the inbox stays current. -/
theorem take_incomplete (hi : i.Current)
    (h : Decoding.ofBytes i.buffer.toList = .incomplete) :
    ∃ d, i.take = (.incomplete, ⟨i.buffer, d⟩) ∧ Current ⟨i.buffer, d⟩ := by
  have hpair : Decoder.fresh.decode i.buffer =
      (.incomplete, (Decoder.fresh.decode i.buffer).2) := Prod.ext h rfl
  refine ⟨(Decoder.fresh.decode i.buffer).2, ?_, fun c hc => ?_⟩
  · rw [take, hi.decode_eq, hpair]
  · exact Decoder.decode_after_decode fun _ => hc

/-- What a current inbox takes is what its bytes make by themselves. -/
theorem fst_take (hi : i.Current) : i.take.1 = Decoding.ofBytes i.buffer.toList := by
  cases h : Decoding.ofBytes i.buffer.toList with
  | incomplete =>
    obtain ⟨d, htake, -⟩ := hi.take_incomplete h
    rw [htake]
  | complete r n => rw [hi.take_complete h]
  | refused cause => rw [hi.take_refused h]

/-- What is decided of the buffer of an inbox stands whatever follows. -/
theorem ofBytes_append_of_take (hi : i.Current) {result : Decoding} {j : Inbox}
    (h : i.take = (result, j)) (hdecided : result ≠ .incomplete) (more : List UInt8) :
    Decoding.ofBytes (i.buffer.toList ++ more) = result := by
  have hof : Decoding.ofBytes i.buffer.toList = result := by rw [← hi.fst_take, h]
  rw [Decoding.ofBytes_eq_of_grows (List.prefix_append _ _) (by rwa [hof]), hof]

theorem of_take_complete (hi : i.Current) {j : Inbox} {r : Request} {n : Nat}
    (h : i.take = (.complete r n, j)) :
    Decoding.ofBytes i.buffer.toList = .complete r n ∧ j = ⟨i.buffer.extract n, Decoder.fresh⟩ := by
  have hof : Decoding.ofBytes i.buffer.toList = .complete r n := by rw [← hi.fst_take, h]
  exact ⟨hof, congrArg Prod.snd (h.symm.trans (hi.take_complete hof))⟩

theorem of_take_incomplete (hi : i.Current) {j : Inbox} (h : i.take = (.incomplete, j)) :
    Decoding.ofBytes i.buffer.toList = .incomplete ∧ j.buffer = i.buffer ∧ j.Current := by
  have hof : Decoding.ofBytes i.buffer.toList = .incomplete := by rw [← hi.fst_take, h]
  obtain ⟨d, htake, hd⟩ := hi.take_incomplete hof
  obtain rfl : j = ⟨i.buffer, d⟩ := congrArg Prod.snd (h.symm.trans htake)
  exact ⟨hof, rfl, hd⟩

end Current

end Inbox

end HttpEngine
