import HttpEngine.Proofs.Intake.ChunkedGrowth
/-!
# Decoding in a growing buffer

What a fresh decoder makes of a buffer and of a longer one that starts with it
(`Decoder.decode_fresh_of_grows`). Either the shorter buffer settles the matter, and the longer one
gives the same request or refusal; or decoding waits, and the decoder that is left decodes the
longer buffer just as a fresh one does. A request that only the longer buffer completes ends beyond
the shorter.

Everything about the order in which bytes arrive follows from this one statement: a decoder that has
waited is as good as a fresh one, and what a buffer is decided to be depends on no byte behind it.
-/

namespace HttpEngine

/-- A request, if it is one, occupies bytes **beyond** a size. -/
def Decoding.EndsBeyond (size : Nat) : Decoding → Prop
  | .complete _ n => size < n
  | _ => True

namespace Decoder

variable {b c : Buffer} {stray searched stop : Nat} {blank : BlankLine}

/-! ### Stray bytes -/

theorem skipStray_of_find {i j : Nat} {byte : UInt8}
    (h : findFrom properAt? b i = some (j, byte)) : skipStray b i = j := by
  rw [skipStray, h]

theorem skipStray_of_find_none {i : Nat} (h : findFrom properAt? b i = none) :
    skipStray b i = max i b.size := by
  rw [skipStray, h]

/-- A byte that is no stray one is not skipped. -/
theorem skipStray_cons {b : UInt8} {rest : List UInt8} (hb : isStray b = false) :
    skipStray (b :: rest).toArray 0 = 0 := by
  have hproper : properAt? (b :: rest).toArray 0 = some b := by
    simp [properAt?, hb]
  exact skipStray_of_find (findFrom_of_recognised (by simp) hproper)

/-- Skipping never goes back. -/
theorem le_skipStray (b : Buffer) (i : Nat) : i ≤ skipStray b i := by
  cases h : findFrom properAt? b i with
  | none =>
    rw [skipStray_of_find_none h]
    exact Nat.le_max_left _ _
  | some found =>
    rw [skipStray_of_find h]
    exact (findFrom_eq_some_iff.1 h).1

/-- Skipping does not go beyond the buffer. -/
theorem skipStray_le (b : Buffer) (i : Nat) : skipStray b i ≤ max i b.size := by
  cases hfind : findFrom properAt? b i with
  | none => exact Nat.le_of_eq (skipStray_of_find_none hfind)
  | some found =>
    obtain ⟨j, byte⟩ := found
    rw [skipStray_of_find hfind]
    exact (Nat.le_of_lt (findFrom_spec hfind).2.1).trans (Nat.le_max_right _ _)

/-- A stray byte is skipped. -/
theorem skipStray_succ {i : Nat} (hi : i < b.size) (hproper : properAt? b i = none) :
    skipStray b (i + 1) = skipStray b i := by
  rw [skipStray, skipStray, findFrom_succ hproper]
  cases findFrom properAt? b i with
  | none =>
    simp only
    omega
  | some found => rfl

/-- Where no stray byte stands, nothing is skipped. -/
theorem skipStray_eq_self {i : Nat} (h : ¬ (i < b.size ∧ properAt? b i = none)) :
    skipStray b i = i := by
  rcases Nat.lt_or_ge i b.size with hi | hi
  · obtain ⟨byte, hproper⟩ := Option.ne_none_iff_exists'.1 fun hnone => h ⟨hi, hnone⟩
    exact skipStray_of_find (findFrom_of_recognised hi hproper)
  · rw [skipStray_of_find_none (findFrom_of_size_le hi), Nat.max_eq_left hi]

/-- Skipping stops at a byte that is no stray one, or at the end of the buffer. -/
theorem find_of_skipStray_lt {i : Nat} (h : skipStray b i < b.size) :
    ∃ byte, findFrom properAt? b i = some (skipStray b i, byte) := by
  cases hfind : findFrom properAt? b i with
  | none =>
    rw [skipStray_of_find_none hfind] at h
    omega
  | some found =>
    rw [skipStray_of_find hfind]
    exact ⟨found.2, rfl⟩

/-- Skipping that stops inside a buffer stops there in every longer one. -/
theorem skipStray_of_grows {i : Nat} (hbc : b.toList <+: c.toList) (h : skipStray b i < b.size) :
    skipStray c i = skipStray b i := by
  obtain ⟨byte, hfind⟩ := find_of_skipStray_lt h
  exact skipStray_of_find (steady_properAt?.find_of_grows hbc hfind)

/-- Skipping goes on in a longer buffer as if it started there. -/
theorem skipStray_skipStray (hbc : b.toList <+: c.toList) {i : Nat} (hi : i ≤ b.size) :
    skipStray c (skipStray b i) = skipStray c i := by
  cases hfind : findFrom properAt? b i with
  | some found =>
    obtain ⟨j, byte⟩ := found
    have hj := findFrom_eq_some_iff.1 (steady_properAt?.find_of_grows hbc hfind)
    have hjj : findFrom properAt? c j = some (j, byte) :=
      findFrom_of_recognised hj.2.1 hj.2.2.1
    -- the search stops at once where it stopped before
    rw [skipStray_of_find hfind, skipStray_of_find hjj,
      skipStray_of_find (steady_properAt?.find_of_grows hbc hfind)]
  | none =>
    have hsize := size_le_of_grows hbc
    have hskip : findFrom properAt? c b.size = findFrom properAt? c i :=
      steady_properAt?.find_resume hbc hfind hi (.inr (Nat.le_refl _)) Nat.one_pos
    rw [skipStray_of_find_none hfind, Nat.max_eq_right hi, skipStray, skipStray, hskip,
      Nat.max_eq_right hsize, Nat.max_eq_right (hi.trans hsize)]

/-! ### Decoding, with its slices taken -/

theorem decode_eq_of_decode? {d : Decoder} {r : Decoding × Decoder} (h : d.decode? b = some r) :
    d.decode b = r :=
  Option.some_inj.1 ((d.decode?_eq b).symm.trans h)

/-- Without the end of the head, decoding waits for it. -/
theorem decode_head_of_find_none
    (h : findFrom blankLineAt? b (max (skipStray b stray) (searched - 3)) = none) :
    (head stray searched).decode b = (.incomplete, head (skipStray b stray) b.size) := by
  apply decode_eq_of_decode?
  rw [decode?, readHead?, h]
  rfl

/-- What follows a head that has been found: a refusal, or decoding the body it announces. -/
def decodeBehind (bytes : List UInt8) (stop : Nat) (blank : BlankLine) (buf : Buffer) :
    Decoding × Decoder :=
  match afterHead bytes stop blank with
  | .error e => (.refused e, fresh)
  | .ok d => d.decode buf

/-- A head that is accepted opens a request, and leaves a decoder at the start of the body. -/
theorem eq_body_of_afterHead {bytes : List UInt8} {d : Decoder}
    (h : afterHead bytes stop blank = .ok d) :
    ∃ request framing,
      d = body request (stop + blank.length) (Nat.add_pos_right _ blank.length_pos)
        (.start framing (stop + blank.length)) ∧
      Head.parseBytes bytes = .ok request ∧ Framing.ofFields request.fields = .ok framing := by
  rw [afterHead] at h
  split at h
  · simp at h
  · next request hparse =>
    split at h
    · simp at h
    · next framing hframing =>
      exact ⟨request, framing, (Except.ok.inj h).symm, hparse, hframing⟩

/-- With the end of the head, decoding takes the head and goes on behind it. -/
theorem decode_head_of_find_some
    (h : findFrom blankLineAt? b (max (skipStray b stray) (searched - 3)) = some (stop, blank)) :
    (head stray searched).decode b =
      decodeBehind (bytesBetween b (skipStray b stray) stop) stop blank b := by
  have hstop := findFrom_blankLineAt? h
  apply decode_eq_of_decode?
  rw [decode?, readHead?, h]
  simp only
  rw [slice?_eq_some (by omega) (by omega), ← bytesBetween, Option.map_some, Option.bind_some,
    decodeBehind]
  cases hhead : afterHead (bytesBetween b (skipStray b stray) stop) stop blank with
  | error e => rfl
  | ok d =>
    obtain ⟨request, framing, rfl, -⟩ := eq_body_of_afterHead hhead
    exact decode?_eq (body request _ _ _) b

theorem decode_length {request : Request} {start size : Nat} {start_pos : 0 < start} :
    (body request start start_pos (.length size)).decode b =
      if start + size ≤ b.size then
        (.complete { request with body := bytesBetween b start (start + size) } (start + size),
          fresh)
      else (.incomplete, body request start start_pos (.length size)) := by
  apply decode_eq_of_decode?
  by_cases hsize : start + size ≤ b.size
  · simp only [decode?, readBody?, if_pos hsize, slice?_eq_some (Nat.le_add_right _ _) hsize]
    rfl
  · simp only [decode?, readBody?, if_neg hsize]

theorem decode_chunked {request : Request} {start : Nat} {start_pos : 0 < start} {ch : Chunked} :
    (body request start start_pos (.chunked ch)).decode b =
      match ch.resume b with
      | .error e => (.refused (.badChunk e), fresh)
      | .ok (.waiting ch) => (.incomplete, body request start start_pos (.chunked ch))
      | .ok (.finished data stop) => (.complete { request with body := data } stop, fresh) := by
  apply decode_eq_of_decode?
  simp only [decode?, readBody?]
  cases ch.resume b with
  | error e => rfl
  | ok p => cases p <;> rfl

/-- After a request or a refusal the decoder starts over. -/
theorem decoder_of_decode {d : Decoder} (h : (d.decode b).1 ≠ .incomplete) :
    (d.decode b).2 = fresh := by
  have hbody : ∀ (request : Request) (start : Nat) (start_pos : 0 < start)
      (progress : BodyProgress),
      ((body request start start_pos progress).decode b).1 ≠ .incomplete →
        ((body request start start_pos progress).decode b).2 = fresh := by
    intro request start start_pos progress h
    cases progress with
    | length size =>
      rw [decode_length] at h ⊢
      split_ifs at h ⊢ with hsize
      · rfl
      · exact absurd rfl h
    | chunked ch =>
      rw [decode_chunked] at h ⊢
      cases hch : ch.resume b with
      | error e => rfl
      | ok p =>
        rw [hch] at h
        cases p with
        | waiting w => exact absurd rfl h
        | finished data stop => rfl
  cases d with
  | body request start start_pos progress => exact hbody request start start_pos progress h
  | head stray searched =>
    cases hfind : findFrom blankLineAt? b (max (skipStray b stray) (searched - 3)) with
    | none =>
      rw [decode_head_of_find_none hfind] at h
      exact absurd rfl h
    | some found =>
      obtain ⟨stop, blank⟩ := found
      rw [decode_head_of_find_some hfind, decodeBehind] at h ⊢
      cases hhead : afterHead (bytesBetween b (skipStray b stray) stop) stop blank with
      | error e => rfl
      | ok d =>
        rw [hhead] at h
        obtain ⟨request, framing, rfl, -⟩ := eq_body_of_afterHead hhead
        exact hbody _ _ _ _ h

/-! ### Decoding in a growing buffer -/

/-- Decoding depends on where the search for the end of the head leads, not on where it starts. -/
theorem decode_head_congr {stray' searched' : Nat} (hstray : skipStray b stray = skipStray b stray')
    (hfind : findFrom blankLineAt? b (max (skipStray b stray) (searched - 3)) =
      findFrom blankLineAt? b (max (skipStray b stray') (searched' - 3))) :
    (head stray searched).decode b = (head stray' searched').decode b := by
  cases h : findFrom blankLineAt? b (max (skipStray b stray) (searched - 3)) with
  | none => rw [decode_head_of_find_none h, decode_head_of_find_none (hfind.symm.trans h), hstray]
  | some found =>
    obtain ⟨stop, blank⟩ := found
    rw [decode_head_of_find_some h, decode_head_of_find_some (hfind.symm.trans h), hstray]

/-- A request ends where its chunks end. -/
theorem endsBeyond_decode_chunked {request : Request} {start bound : Nat} {start_pos : 0 < start}
    {ch : Chunked} (h : Chunked.EndsBeyond bound (ch.resume b)) :
    ((body request start start_pos (.chunked ch)).decode b).1.EndsBeyond bound := by
  rw [decode_chunked]
  cases hch : ch.resume b with
  | error e => trivial
  | ok p =>
    rw [hch] at h
    cases p with
    | waiting w => trivial
    | finished data stop => exact h

/-- A request ends behind its head. -/
theorem endsBeyond_decodeBehind {bytes : List UInt8} {bound : Nat}
    (h : bound < stop + blank.length) :
    (decodeBehind bytes stop blank b).1.EndsBeyond bound := by
  rw [decodeBehind]
  cases hhead : afterHead bytes stop blank with
  | error e => trivial
  | ok d =>
    obtain ⟨request, framing, rfl, -⟩ := eq_body_of_afterHead hhead
    cases framing with
    | length size =>
      simp only [BodyProgress.start, decode_length]
      split_ifs
      · exact Nat.lt_add_right size h
      · trivial
    | chunked =>
      exact endsBeyond_decode_chunked (Chunked.endsBeyond_resume (Nat.le_of_lt h))

/-- **The body of a request in a growing buffer.** From the start of a body, decoding that waits
in the shorter buffer resumes in the longer one as if it started there, and a request is then
beyond the shorter; any other outcome is the same in both. -/
theorem decode_body_of_grows (hbc : b.toList <+: c.toList) (request : Request) {start : Nat}
    (start_pos : 0 < start) (framing : Framing) :
    (∃ d, (body request start start_pos (.start framing start)).decode b = (.incomplete, d) ∧
        d.decode c = (body request start start_pos (.start framing start)).decode c ∧
        ((body request start start_pos (.start framing start)).decode c).1.EndsBeyond b.size) ∨
      ((body request start start_pos (.start framing start)).decode c =
          (body request start start_pos (.start framing start)).decode b ∧
        ((body request start start_pos (.start framing start)).decode b).1 ≠ .incomplete) := by
  cases framing with
  | length size =>
    simp only [BodyProgress.start]
    by_cases hb : start + size ≤ b.size
    · have hc := hb.trans (size_le_of_grows hbc)
      refine .inr ⟨?_, ?_⟩
      · rw [decode_length, decode_length, if_pos hb, if_pos hc, bytesBetween_of_grows hbc hb]
      · rw [decode_length, if_pos hb]
        simp
    · refine .inl ⟨_, by rw [decode_length, if_neg hb], rfl, ?_⟩
      rw [decode_length]
      split_ifs
      · exact Nat.lt_of_not_le hb
      · trivial
  | chunked =>
    simp only [BodyProgress.start]
    rcases Chunked.resume_of_grows (c := Chunked.start start) hbc rfl with
      ⟨w, hwait, hresume, hbeyond⟩ | ⟨hsame, hne⟩
    · refine .inl ⟨body request start start_pos (.chunked w), ?_, ?_, ?_⟩
      · rw [decode_chunked, hwait]
      · rw [decode_chunked, decode_chunked, hresume]
      · exact endsBeyond_decode_chunked hbeyond
    · refine .inr ⟨by rw [decode_chunked, decode_chunked, hsame], ?_⟩
      rw [decode_chunked]
      cases hch : (Chunked.start start).resume b with
      | error e => simp
      | ok p =>
        cases p with
        | waiting w => exact absurd hch (hne w)
        | finished data stop => simp

/-- **Decoding in a growing buffer.** A decoder that has waited in the shorter buffer decodes the
longer one as a fresh one does, and a request is then beyond the shorter; any other outcome is the
same in both. -/
theorem decode_fresh_of_grows (hbc : b.toList <+: c.toList) :
    (∃ d, fresh.decode b = (.incomplete, d) ∧ d.decode c = fresh.decode c ∧
        (fresh.decode c).1.EndsBeyond b.size) ∨
      (fresh.decode c = fresh.decode b ∧ (fresh.decode b).1 ≠ .incomplete) := by
  have hzero : ∀ n, max n (0 - 3) = n := fun n => by omega
  -- either the end of the head is still missing, or the head is the same in both buffers
  cases hb : findFrom blankLineAt? b (max (skipStray b 0) (0 - 3)) with
  | none =>
    have hstray : skipStray c (skipStray b 0) = skipStray c 0 :=
      skipStray_skipStray hbc (Nat.zero_le _)
    have hle : skipStray b 0 ≤ skipStray c 0 := hstray ▸ le_skipStray c (skipStray b 0)
    -- the longer buffer may begin with more stray bytes than the shorter showed
    have hnone : findFrom blankLineAt? b (skipStray c 0) = none := by
      rw [hzero, findFrom_eq_none_iff] at hb
      exact findFrom_eq_none_iff.2 fun k hk => hb k (hle.trans hk)
    refine .inl ⟨_, decode_head_of_find_none hb, decode_head_congr hstray ?_, ?_⟩
    · rw [hstray, hzero]
      exact steady_blankLineAt?.find_resume hbc hnone (Nat.le_max_left _ _) (by omega) (by omega)
    · cases hc : findFrom blankLineAt? c (max (skipStray c 0) (0 - 3)) with
      | none =>
        rw [fresh, decode_head_of_find_none hc]
        trivial
      | some found =>
        obtain ⟨stop, blank⟩ := found
        rw [fresh, decode_head_of_find_some hc]
        -- a blank line within the shorter buffer would have been found there
        refine endsBeyond_decodeBehind (Nat.lt_of_not_le fun hle => ?_)
        rw [hzero] at hc
        rw [steady_blankLineAt?.find_of_extent hbc hc hle] at hnone
        simp at hnone
  | some found =>
    obtain ⟨stop, blank⟩ := found
    have hstop := findFrom_eq_some_iff.1 hb
    have hstray : skipStray c 0 = skipStray b 0 := skipStray_of_grows hbc (by omega)
    have hc : findFrom blankLineAt? c (max (skipStray c 0) (0 - 3)) = some (stop, blank) :=
      hstray ▸ steady_blankLineAt?.find_of_grows hbc hb
    rw [fresh, decode_head_of_find_some hb, decode_head_of_find_some hc, hstray,
      bytesBetween_of_grows hbc (by omega), decodeBehind, decodeBehind]
    cases hhead : afterHead (bytesBetween b (skipStray b 0) stop) stop blank with
    | error e => exact .inr ⟨rfl, by simp⟩
    | ok d =>
      obtain ⟨request, framing, rfl, -⟩ := eq_body_of_afterHead hhead
      exact decode_body_of_grows hbc request _ framing

end Decoder

end HttpEngine
