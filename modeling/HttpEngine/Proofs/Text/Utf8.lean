import HttpEngine.Text.Utf8
import HttpEngine.Proofs.Text.Lines
/-!
# Bytes and the characters they encode

Decoding loses nothing: the characters that bytes decode to encode to these bytes again
(`encode_of_decode`). For a sequence of two, three or four bytes this is a calculation with the
number of the character, which the ranges of the bytes keep within the numbers of its length and
away from the surrogates.

A character below `0x80` is one byte, and no such byte occurs inside the encoding of any other
character. So a pattern of such characters occurs in a text just where its bytes occur among the
bytes of the text (`encode_infix_iff`), and the empty lines of a text can be seen in its bytes
(`nil_mem_lines_iff_bytes`).
-/

namespace HttpEngine.Text.Utf8

/-! ### The encoding of a number -/

theorem val_ofNat {v : Nat} (hv : v.isValidChar) : (Char.ofNat v).val.toNat = v := by
  rw [Char.ofNat, dif_pos hv]
  rfl

theorem ofNat_eq (b : UInt8) {n : Nat} (h : n = b.toNat) : UInt8.ofNat n = b := by
  rw [h, UInt8.ofNat_toNat]

/-- A byte below `0x80` is a character. -/
theorem encodeChar_one (b : UInt8) (hb : b.toNat < 0x80) :
    String.utf8EncodeChar (Char.ofNat b.toNat) = [b] := by
  have hv : b.toNat.isValidChar := .inl (by omega)
  rw [String.utf8EncodeChar, val_ofNat hv, if_pos (by omega), UInt8.ofNat_toNat]

theorem encodeChar_two (b b₁ : UInt8) (hb : 0xC2 ≤ b.toNat ∧ b.toNat ≤ 0xDF)
    (hb₁ : 0x80 ≤ b₁.toNat ∧ b₁.toNat ≤ 0xBF) :
    String.utf8EncodeChar (Char.ofNat ((b.toNat - 0xC0) * 64 + b₁.toNat % 64)) = [b, b₁] := by
  have hv : ((b.toNat - 0xC0) * 64 + b₁.toNat % 64).isValidChar := .inl (by omega)
  rw [String.utf8EncodeChar, val_ofNat hv, if_neg (by omega), if_pos (by omega),
    ofNat_eq b (by omega), ofNat_eq b₁ (by omega)]

theorem encodeChar_three (b b₁ b₂ : UInt8) (hb : 0xE0 ≤ b.toNat ∧ b.toNat ≤ 0xEF)
    (hb₁ : 0x80 ≤ b₁.toNat ∧ b₁.toNat ≤ 0xBF) (hlow : b.toNat = 0xE0 → 0xA0 ≤ b₁.toNat)
    (hhigh : b.toNat = 0xED → b₁.toNat ≤ 0x9F) (hb₂ : 0x80 ≤ b₂.toNat ∧ b₂.toNat ≤ 0xBF) :
    String.utf8EncodeChar
        (Char.ofNat (((b.toNat - 0xE0) * 64 + b₁.toNat % 64) * 64 + b₂.toNat % 64)) =
      [b, b₁, b₂] := by
  have hv : (((b.toNat - 0xE0) * 64 + b₁.toNat % 64) * 64 + b₂.toNat % 64).isValidChar := by
    rw [Nat.isValidChar]
    omega
  rw [String.utf8EncodeChar, val_ofNat hv, if_neg (by omega), if_neg (by omega),
    if_pos (by omega), ofNat_eq b (by omega), ofNat_eq b₁ (by omega), ofNat_eq b₂ (by omega)]

theorem encodeChar_four (b b₁ b₂ b₃ : UInt8) (hb : 0xF0 ≤ b.toNat ∧ b.toNat ≤ 0xF4)
    (hb₁ : 0x80 ≤ b₁.toNat ∧ b₁.toNat ≤ 0xBF) (hlow : b.toNat = 0xF0 → 0x90 ≤ b₁.toNat)
    (hhigh : b.toNat = 0xF4 → b₁.toNat ≤ 0x8F) (hb₂ : 0x80 ≤ b₂.toNat ∧ b₂.toNat ≤ 0xBF)
    (hb₃ : 0x80 ≤ b₃.toNat ∧ b₃.toNat ≤ 0xBF) :
    String.utf8EncodeChar (Char.ofNat
        ((((b.toNat - 0xF0) * 64 + b₁.toNat % 64) * 64 + b₂.toNat % 64) * 64 + b₃.toNat % 64)) =
      [b, b₁, b₂, b₃] := by
  have hv : ((((b.toNat - 0xF0) * 64 + b₁.toNat % 64) * 64 + b₂.toNat % 64) * 64 +
      b₃.toNat % 64).isValidChar := by
    rw [Nat.isValidChar]
    omega
  rw [String.utf8EncodeChar, val_ofNat hv, if_neg (by omega), if_neg (by omega),
    if_neg (by omega), ofNat_eq b (by omega), ofNat_eq b₁ (by omega), ofNat_eq b₂ (by omega),
    ofNat_eq b₃ (by omega)]

/-! ### Decoding loses nothing -/

/-- What a byte that opens a sequence leaves open. -/
theorem opening_cases {i b : Nat} {s : Sequence} (h : Sequence.opening i b = some s) :
    (s.missing = 1 ∧ (0xC2 ≤ b ∧ b ≤ 0xDF) ∧ s.bits = b - 0xC0 ∧ 0x80 ≤ s.low ∧ s.high ≤ 0xBF) ∨
    (s.missing = 2 ∧ (0xE0 ≤ b ∧ b ≤ 0xEF) ∧ s.bits = b - 0xE0 ∧ 0x80 ≤ s.low ∧ s.high ≤ 0xBF ∧
      (b = 0xE0 → 0xA0 ≤ s.low) ∧ (b = 0xED → s.high ≤ 0x9F)) ∨
    (s.missing = 3 ∧ (0xF0 ≤ b ∧ b ≤ 0xF4) ∧ s.bits = b - 0xF0 ∧ 0x80 ≤ s.low ∧ s.high ≤ 0xBF ∧
      (b = 0xF0 → 0x90 ≤ s.low) ∧ (b = 0xF4 → s.high ≤ 0x8F)) := by
  rw [Sequence.opening] at h
  split at h
  · next hb =>
    obtain rfl := Option.some.inj h
    exact .inl ⟨rfl, hb, rfl, Nat.le_refl _, Nat.le_refl _⟩
  · split at h
    · next hb =>
      obtain rfl := Option.some.inj h
      refine .inr (.inl ⟨rfl, hb, rfl, ?_⟩)
      dsimp only
      split <;> split <;> omega
    · split at h
      · next hb =>
        obtain rfl := Option.some.inj h
        refine .inr (.inr ⟨rfl, hb, rfl, ?_⟩)
        dsimp only
        split <;> split <;> omega
      · simp at h

theorem map_eq_ok {ε α β : Type} {f : α → β} {x : Except ε α} {y : β} (h : x.map f = .ok y) :
    ∃ a, x = .ok a ∧ f a = y := by
  cases x with
  | error e => simp [Except.map] at h
  | ok a => exact ⟨a, rfl, Except.ok.inj h⟩

/-- Inside a sequence the next byte lies in its range, and it ends the sequence or goes on with
it. -/
theorem of_decodeFrom_some {i : Nat} {s : Sequence} {bytes : List UInt8} {cs : List Char}
    (h : decodeFrom i (some s) bytes = .ok cs) :
    ∃ b rest, bytes = b :: rest ∧ (s.low ≤ b.toNat ∧ b.toNat ≤ s.high) ∧
      if s.missing = 1 then
        ∃ cs', cs = Char.ofNat (s.push b.toNat) :: cs' ∧ decodeFrom (i + 1) none rest = .ok cs'
      else
        decodeFrom (i + 1) (some ⟨s.start, s.missing - 1, 0x80, 0xBF, s.push b.toNat⟩) rest =
          .ok cs := by
  cases bytes with
  | nil => simp [decodeFrom] at h
  | cons b rest =>
    rw [decodeFrom] at h
    split at h
    · next hrange =>
      refine ⟨b, rest, rfl, hrange, ?_⟩
      split at h
      · next hlast =>
        rw [if_pos hlast]
        obtain ⟨cs', hcs', rfl⟩ := map_eq_ok h
        exact ⟨cs', rfl, hcs'⟩
      · next hmore =>
        rw [if_neg hmore]
        exact h
    · simp at h

/-- Bytes that can be decoded begin with the encoding of the first character. -/
theorem of_decodeFrom_cons {i : Nat} {b : UInt8} {rest : List UInt8} {cs : List Char}
    (h : decodeFrom i none (b :: rest) = .ok cs) :
    ∃ c cs' rest' j, cs = c :: cs' ∧ b :: rest = String.utf8EncodeChar c ++ rest' ∧
      decodeFrom j none rest' = .ok cs' := by
  rw [decodeFrom] at h
  split at h
  · next hascii =>
    obtain ⟨cs', hcs', rfl⟩ := map_eq_ok h
    exact ⟨_, cs', rest, _, rfl, by rw [encodeChar_one b hascii]; rfl, hcs'⟩
  · split at h
    · next s hopen =>
      obtain ⟨b₁, rest₁, rfl, hb₁, h₁⟩ := of_decodeFrom_some h
      rcases opening_cases hopen with ⟨hmissing, hb, hbits, hlow, hhigh⟩ |
        ⟨hmissing, hb, hbits, hlow, hhigh, hlow', hhigh'⟩ |
        ⟨hmissing, hb, hbits, hlow, hhigh, hlow', hhigh'⟩
      · rw [if_pos hmissing, Sequence.push, hbits] at h₁
        obtain ⟨cs', rfl, hcs'⟩ := h₁
        refine ⟨_, cs', rest₁, _, rfl, ?_, hcs'⟩
        rw [encodeChar_two b b₁ hb (by omega)]
        rfl
      · rw [if_neg (by omega), Sequence.push, hbits] at h₁
        obtain ⟨b₂, rest₂, rfl, hb₂, h₂⟩ := of_decodeFrom_some h₁
        rw [if_pos (by simp [hmissing]), Sequence.push] at h₂
        obtain ⟨cs', rfl, hcs'⟩ := h₂
        refine ⟨_, cs', rest₂, _, rfl, ?_, hcs'⟩
        rw [encodeChar_three b b₁ b₂ hb (by omega) (by omega) (by omega) hb₂]
        rfl
      · rw [if_neg (by omega), Sequence.push, hbits] at h₁
        obtain ⟨b₂, rest₂, rfl, hb₂, h₂⟩ := of_decodeFrom_some h₁
        rw [if_neg (by simp [hmissing]), Sequence.push] at h₂
        obtain ⟨b₃, rest₃, rfl, hb₃, h₃⟩ := of_decodeFrom_some h₂
        rw [if_pos (by simp [hmissing]), Sequence.push] at h₃
        obtain ⟨cs', rfl, hcs'⟩ := h₃
        refine ⟨_, cs', rest₃, _, rfl, ?_, hcs'⟩
        rw [encodeChar_four b b₁ b₂ b₃ hb (by omega) (by omega) (by omega) hb₂ hb₃]
        rfl
    · simp at h

theorem encode_of_decodeFrom {i : Nat} {bytes : List UInt8} {cs : List Char}
    (h : decodeFrom i none bytes = .ok cs) : encode cs = bytes := by
  induction hlen : bytes.length using Nat.strong_induction_on generalizing i bytes cs with
  | _ n ih =>
    cases bytes with
    | nil =>
      obtain rfl : [] = cs := by simpa [decodeFrom] using h
      rfl
    | cons b rest =>
      obtain ⟨c, cs', rest', j, rfl, hbytes, hcs'⟩ := of_decodeFrom_cons h
      have hshort : rest'.length < n := by
        have hpos := List.length_pos_iff.2 (String.utf8EncodeChar_ne_nil (c := c))
        have hsum := congrArg List.length hbytes
        rw [List.length_append] at hsum
        omega
      rw [encode_cons, ih _ hshort hcs' rfl, hbytes]

/-- **Decoding loses nothing.** The characters that bytes decode to encode to these bytes. -/
theorem encode_of_decode {bytes : List UInt8} {cs : List Char} (h : decode bytes = .ok cs) :
    encode cs = bytes :=
  encode_of_decodeFrom h

/-! ### Patterns of small characters -/

/-- A small character is one byte. -/
theorem encodeChar_of_le {c : Char} (h : c.val.toNat ≤ 0x7F) :
    String.utf8EncodeChar c = [UInt8.ofNat c.val.toNat] := by
  rw [String.utf8EncodeChar, if_pos h]

/-- The bytes of another character are all large. -/
theorem le_of_mem_encodeChar {c : Char} (h : ¬ c.val.toNat ≤ 0x7F) {b : UInt8}
    (hb : b ∈ String.utf8EncodeChar c) : 0x80 ≤ b.toNat := by
  rw [String.utf8EncodeChar, if_neg h] at hb
  split at hb
  · simp only [List.mem_cons, List.not_mem_nil, or_false] at hb
    rcases hb with rfl | rfl <;> simp only [UInt8.toNat_ofNat'] <;> omega
  · split at hb
    · simp only [List.mem_cons, List.not_mem_nil, or_false] at hb
      rcases hb with rfl | rfl | rfl <;> simp only [UInt8.toNat_ofNat'] <;> omega
    · simp only [List.mem_cons, List.not_mem_nil, or_false] at hb
      rcases hb with rfl | rfl | rfl | rfl <;> simp only [UInt8.toNat_ofNat'] <;> omega

theorem ofNat_inj_of_le {c d : Char} (hc : c.val.toNat ≤ 0x7F) (hd : d.val.toNat ≤ 0x7F) :
    UInt8.ofNat c.val.toNat = UInt8.ofNat d.val.toNat ↔ c = d := by
  constructor
  · intro h
    have hval := congrArg UInt8.toNat h
    simp only [UInt8.toNat_ofNat'] at hval
    exact Char.ext (UInt32.toNat_inj.1 (by omega))
  · rintro rfl
    rfl

variable {pattern cs : List Char}

/-- A text starts with small characters where its bytes start with theirs. -/
theorem encode_prefix_iff (hpattern : ∀ c ∈ pattern, c.val.toNat ≤ 0x7F) :
    encode pattern <+: encode cs ↔ pattern <+: cs := by
  induction pattern generalizing cs with
  | nil => simp
  | cons p ps ih =>
    have hp := hpattern p List.mem_cons_self
    have hps := fun c hc => hpattern c (List.mem_cons_of_mem p hc)
    rw [encode_cons, encodeChar_of_le hp, List.singleton_append]
    cases cs with
    | nil => simp
    | cons c cs =>
      rw [encode_cons, List.cons_prefix_cons]
      by_cases hc : c.val.toNat ≤ 0x7F
      · rw [encodeChar_of_le hc, List.singleton_append, List.cons_prefix_cons, ih hps,
          ofNat_inj_of_le hp hc]
      · obtain ⟨b, more, hb⟩ := List.exists_cons_of_ne_nil (String.utf8EncodeChar_ne_nil (c := c))
        have hlarge := le_of_mem_encodeChar hc (hb ▸ List.mem_cons_self)
        rw [hb, List.cons_append, List.cons_prefix_cons]
        refine iff_of_false ?_ ?_
        · rintro ⟨rfl, -⟩
          simp only [UInt8.toNat_ofNat'] at hlarge
          omega
        · rintro ⟨rfl, -⟩
          exact hc hp

/-- **Patterns show in bytes.** Small characters lie in a text where their bytes lie in those of the
text. -/
theorem encode_infix_iff (hpattern : ∀ c ∈ pattern, c.val.toNat ≤ 0x7F) (hne : pattern ≠ []) :
    encode pattern <:+: encode cs ↔ pattern <:+: cs := by
  obtain ⟨p, ps, rfl⟩ := List.exists_cons_of_ne_nil hne
  have hp := hpattern p List.mem_cons_self
  induction cs with
  | nil => simp [encode_cons, encodeChar_of_le hp]
  | cons c cs ih =>
    have hrest : encode (p :: ps) <:+: encode cs ↔ p :: ps <:+: cs := ih
    by_cases hc : c.val.toNat ≤ 0x7F
    · have hbyte : encode (c :: cs) = UInt8.ofNat c.val.toNat :: encode cs := by
        rw [encode_cons, encodeChar_of_le hc, List.singleton_append]
      rw [hbyte, List.infix_cons_iff, ← hbyte, encode_prefix_iff hpattern, hrest,
        List.infix_cons_iff]
    · -- the pattern begins neither inside this character nor with it
      have hfirst : UInt8.ofNat p.val.toNat ∉ String.utf8EncodeChar c := by
        intro hmem
        have hlarge := le_of_mem_encodeChar hc hmem
        simp only [UInt8.toNat_ofNat'] at hlarge
        omega
      have hnot : ¬ p :: ps <+: c :: cs := by
        rw [List.cons_prefix_cons]
        rintro ⟨rfl, -⟩
        exact hc hp
      rw [List.infix_cons_iff, or_iff_right hnot, ← hrest, encode_cons, encode_cons,
        encodeChar_of_le hp, List.singleton_append, cons_infix_append_iff hfirst]

/-- A small character is in a text where its byte is among those of the text. -/
theorem mem_encode_iff {c : Char} (hc : c.val.toNat ≤ 0x7F) :
    UInt8.ofNat c.val.toNat ∈ encode cs ↔ c ∈ cs := by
  have hone : encode [c] = [UInt8.ofNat c.val.toNat] := by
    rw [encode_cons, encodeChar_of_le hc, encode_nil, List.append_nil]
  rw [← List.singleton_infix_iff, ← List.singleton_infix_iff, ← hone,
    encode_infix_iff (List.forall_mem_singleton.2 hc) (List.cons_ne_nil c [])]

/-- LF CR LF lies among bytes where it lies in their text. -/
theorem lf_cr_lf_infix_iff {bytes : List UInt8} (h : decode bytes = .ok cs) :
    [10, 13, 10] <:+: bytes ↔ ['\n', '\r', '\n'] <:+: cs := by
  have hthree : encode ['\n', '\r', '\n'] = [10, 13, 10] := by decide
  rw [← encode_of_decode h, ← hthree, encode_infix_iff (by simp) (by simp)]

/-- **Empty lines show in bytes.** -/
theorem nil_mem_lines_iff_bytes {bytes : List UInt8} (h : decode bytes = .ok cs) :
    [] ∈ lines cs ↔ [10, 10] <:+: 10 :: bytes ∨ [10, 13, 10] <:+: 10 :: bytes := by
  have hbytes : encode ('\n' :: cs) = 10 :: bytes := by
    rw [encode_cons, encode_of_decode h]
    rfl
  have htwo : encode ['\n', '\n'] = [10, 10] := by decide
  have hthree : encode ['\n', '\r', '\n'] = [10, 13, 10] := by decide
  rw [nil_mem_lines_iff, ← hbytes, ← htwo, ← hthree, encode_infix_iff (by simp) (by simp),
    encode_infix_iff (by simp) (by simp)]

end HttpEngine.Text.Utf8
