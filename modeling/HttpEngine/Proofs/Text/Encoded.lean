import HttpEngine.Proofs.Text.Utf8
/-!
# Decoding what was encoded

The bytes of characters decode to these characters (`Utf8.decode_encode`), for every list of
characters: a character opens a sequence of its own length, each further byte lies in the range that
the bytes before it leave open, and the bits that are gathered are those of the character.
-/

namespace HttpEngine.Text.Utf8

variable {i v : Nat} {b : UInt8} {s : Sequence} {rest : List UInt8} {c : Char}

/-! ### A byte at a time -/

theorem decodeFrom_opening (hb : 0x80 ≤ b.toNat) (h : Sequence.opening i b.toNat = some s) :
    decodeFrom i none (b :: rest) = decodeFrom (i + 1) (some s) rest := by
  rw [decodeFrom, if_neg (by omega), h]

theorem decodeFrom_more (hrange : s.low ≤ b.toNat ∧ b.toNat ≤ s.high) (hmore : s.missing ≠ 1) :
    decodeFrom i (some s) (b :: rest) =
      decodeFrom (i + 1) (some ⟨s.start, s.missing - 1, 0x80, 0xBF, s.push b.toNat⟩) rest := by
  rw [decodeFrom, if_pos hrange, if_neg hmore]

theorem decodeFrom_last (hrange : s.low ≤ b.toNat ∧ b.toNat ≤ s.high) (hlast : s.missing = 1)
    (hc : s.push b.toNat = c.val.toNat) :
    decodeFrom i (some s) (b :: rest) = (decodeFrom (i + 1) none rest).map (c :: ·) := by
  have hchar : Char.ofNat c.val.toNat = c := Char.ofNat_toNat c
  rw [decodeFrom, if_pos hrange, if_pos hlast, hc, hchar]

theorem toNat_ofNat (h : v < 256) : (UInt8.ofNat v).toNat = v := by
  rw [UInt8.toNat_ofNat', Nat.mod_eq_of_lt h]

/-! ### A character -/

/-- The number of a character is below `0x110000` and no surrogate. -/
theorem val_cases (c : Char) :
    c.val.toNat < 0xD800 ∨ (0xDFFF < c.val.toNat ∧ c.val.toNat < 0x110000) := c.valid

/-- A character below `0x80` is a byte. -/
theorem decodeFrom_one (hv : c.val.toNat = v) (h : v ≤ 0x7F) :
    decodeFrom i none (UInt8.ofNat v :: rest) = (decodeFrom (i + 1) none rest).map (c :: ·) := by
  have hb : (UInt8.ofNat v).toNat = v := toNat_ofNat (by omega)
  have hchar : Char.ofNat v = c := hv ▸ Char.ofNat_toNat c
  rw [decodeFrom, if_pos (by omega), hb, hchar]

theorem decodeFrom_two (hv : c.val.toNat = v) (h : 0x7F < v ∧ v ≤ 0x7FF) :
    decodeFrom i none (UInt8.ofNat (v / 64 % 32 + 192) :: UInt8.ofNat (v % 64 + 128) :: rest) =
      (decodeFrom (i + 2) none rest).map (c :: ·) := by
  have hb : (UInt8.ofNat (v / 64 % 32 + 192)).toNat = v / 64 + 0xC0 := by
    rw [toNat_ofNat (by omega)]
    omega
  have hb₁ : (UInt8.ofNat (v % 64 + 128)).toNat = v % 64 + 0x80 := toNat_ofNat (by omega)
  have hopen : Sequence.opening i (UInt8.ofNat (v / 64 % 32 + 192)).toNat =
      some ⟨i, 1, 0x80, 0xBF, v / 64⟩ := by
    rw [hb, Sequence.opening, if_pos (by omega), Nat.add_sub_cancel]
  rw [decodeFrom_opening (by omega) hopen, decodeFrom_last (by dsimp only; omega) rfl]
  rw [Sequence.push, hb₁]
  dsimp only
  omega

/-- Behind a first byte of `0xE0` or `0xED` the range of the second leaves the character open. -/
theorem decodeFrom_three (hv : c.val.toNat = v) (h : 0x7FF < v ∧ v ≤ 0xFFFF)
    (hproper : v < 0xD800 ∨ 0xDFFF < v) :
    decodeFrom i none (UInt8.ofNat (v / 4096 % 16 + 224) :: UInt8.ofNat (v / 64 % 64 + 128) ::
        UInt8.ofNat (v % 64 + 128) :: rest) =
      (decodeFrom (i + 3) none rest).map (c :: ·) := by
  have hb : (UInt8.ofNat (v / 4096 % 16 + 224)).toNat = v / 4096 + 0xE0 := by
    rw [toNat_ofNat (by omega)]
    omega
  have hb₁ : (UInt8.ofNat (v / 64 % 64 + 128)).toNat = v / 64 % 64 + 0x80 :=
    toNat_ofNat (by omega)
  have hb₂ : (UInt8.ofNat (v % 64 + 128)).toNat = v % 64 + 0x80 := toNat_ofNat (by omega)
  obtain ⟨low, high, hopen, hlow, hhigh⟩ : ∃ low high,
      Sequence.opening i (UInt8.ofNat (v / 4096 % 16 + 224)).toNat =
        some ⟨i, 2, low, high, v / 4096⟩ ∧
      low ≤ v / 64 % 64 + 0x80 ∧ v / 64 % 64 + 0x80 ≤ high := by
    rw [hb, Sequence.opening, if_neg (by omega), if_pos (by omega), Nat.add_sub_cancel]
    refine ⟨_, _, rfl, ?_, ?_⟩
    · split <;> omega
    · split <;> omega
  rw [decodeFrom_opening (by omega) hopen,
    decodeFrom_more (by dsimp only; omega) (by dsimp only; omega),
    decodeFrom_last (by dsimp only; omega) rfl]
  rw [Sequence.push, Sequence.push, hb₁, hb₂]
  dsimp only
  omega

theorem decodeFrom_four (hv : c.val.toNat = v) (h : 0xFFFF < v ∧ v < 0x110000) :
    decodeFrom i none (UInt8.ofNat (v / 262144 % 8 + 240) :: UInt8.ofNat (v / 4096 % 64 + 128) ::
        UInt8.ofNat (v / 64 % 64 + 128) :: UInt8.ofNat (v % 64 + 128) :: rest) =
      (decodeFrom (i + 4) none rest).map (c :: ·) := by
  have hb : (UInt8.ofNat (v / 262144 % 8 + 240)).toNat = v / 262144 + 0xF0 := by
    rw [toNat_ofNat (by omega)]
    omega
  have hb₁ : (UInt8.ofNat (v / 4096 % 64 + 128)).toNat = v / 4096 % 64 + 0x80 :=
    toNat_ofNat (by omega)
  have hb₂ : (UInt8.ofNat (v / 64 % 64 + 128)).toNat = v / 64 % 64 + 0x80 :=
    toNat_ofNat (by omega)
  have hb₃ : (UInt8.ofNat (v % 64 + 128)).toNat = v % 64 + 0x80 := toNat_ofNat (by omega)
  obtain ⟨low, high, hopen, hlow, hhigh⟩ : ∃ low high,
      Sequence.opening i (UInt8.ofNat (v / 262144 % 8 + 240)).toNat =
        some ⟨i, 3, low, high, v / 262144⟩ ∧
      low ≤ v / 4096 % 64 + 0x80 ∧ v / 4096 % 64 + 0x80 ≤ high := by
    rw [hb, Sequence.opening, if_neg (by omega), if_neg (by omega), if_pos (by omega),
      Nat.add_sub_cancel]
    refine ⟨_, _, rfl, ?_, ?_⟩
    · split <;> omega
    · split <;> omega
  rw [decodeFrom_opening (by omega) hopen,
    decodeFrom_more (by dsimp only; omega) (by dsimp only; omega),
    decodeFrom_more (by dsimp only; omega) (by dsimp only; omega),
    decodeFrom_last (by dsimp only; omega) rfl]
  rw [Sequence.push, Sequence.push, Sequence.push, hb₁, hb₂, hb₃]
  dsimp only
  omega

/-- The bytes of a character are read as the character. -/
theorem decodeFrom_encodeChar (c : Char) (i : Nat) (rest : List UInt8) :
    ∃ j, decodeFrom i none (String.utf8EncodeChar c ++ rest) =
      (decodeFrom j none rest).map (c :: ·) := by
  have hc := val_cases c
  rw [String.utf8EncodeChar]
  split_ifs with h₁ h₂ h₃
  · exact ⟨_, decodeFrom_one rfl h₁⟩
  · exact ⟨_, decodeFrom_two rfl ⟨by omega, h₂⟩⟩
  · exact ⟨_, decodeFrom_three rfl ⟨by omega, h₃⟩ (by omega)⟩
  · exact ⟨_, decodeFrom_four rfl ⟨by omega, by omega⟩⟩

/-! ### Characters -/

theorem decodeFrom_encode (i : Nat) (cs : List Char) :
    decodeFrom i none (encode cs) = .ok cs := by
  induction cs generalizing i with
  | nil => rfl
  | cons c cs ih =>
    obtain ⟨j, hj⟩ := decodeFrom_encodeChar c i (encode cs)
    rw [encode_cons, hj, ih j]
    rfl

/-- **Decoding gives back what was encoded.** -/
@[simp] theorem decode_encode (cs : List Char) : decode (encode cs) = .ok cs :=
  decodeFrom_encode 0 cs

/-- Bytes decode to the characters that they encode. -/
theorem decode_eq_ok_iff {bytes : List UInt8} {cs : List Char} :
    decode bytes = .ok cs ↔ bytes = encode cs :=
  ⟨fun h => (encode_of_decode h).symm, fun h => h ▸ decode_encode cs⟩

theorem encode_injective : Function.Injective encode := fun cs ds h =>
  Except.ok.inj ((decode_encode cs).symm.trans (h ▸ decode_encode ds))

end HttpEngine.Text.Utf8
