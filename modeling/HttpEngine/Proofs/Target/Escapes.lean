import HttpEngine.Proofs.Target.Spelling
import HttpEngine.Proofs.Text.Numeral
/-!
# Escapes among the bytes of a component

A component is decoded by its characters. Here the same is said by its **bytes**, on which two
passes go from left to right: the first looks at what follows every percent sign and refuses the
component unless that is an **escape**, two hexadecimal digits of ASCII; the second replaces each
escape by the byte that it spells, keeps every other byte, the plus sign included, and the result
has to be UTF-8. Behind an escape both go on after its digits.

The second pass may be made by any function that replaces well-formed escapes and keeps the bytes
in front of them (`Percent.ReplacesEscapes`). What it makes of a malformed escape does not matter,
for the first pass lets none through. That the two passes see the same escapes as the characters do
(`Percent.of_unescape_eq_some`, `Percent.not_wellEscaped_of_unescape`) rests on a percent sign and a
digit being one byte each, and on no such byte lying inside another character.

`Percent.decode_exact` puts together what follows: the passes decode as the characters do, the texts
that are decoded to, the encodings that are undone, and the components that stand for themselves.
-/

namespace HttpEngine

open Text

namespace Percent

/-! ### Escapes -/

/-- The byte of a percent sign. -/
def percentByte : UInt8 := 0x25

/-- The character that a byte is by itself. -/
def byteChar (b : UInt8) : Char := Char.ofNat b.toNat

/-- Whether bytes are two hexadecimal digits. -/
def isEscape : List UInt8 → Bool
  | [high, low] => (byteChar high).isHexDigit && (byteChar low).isHexDigit
  | _ => false

/-- What follows each percent sign at which a scan from the left stops, as far as two bytes. The
scan goes on behind them. -/
def escapes : List UInt8 → List (List UInt8)
  | [] => []
  | b :: rest =>
    if b = percentByte then
      match rest with
      | high :: low :: rest => [high, low] :: escapes rest
      | cut => [cut]
    else escapes rest

/-- That every percent sign at which the scan stops is followed by two hexadecimal digits. -/
def WellEscaped (bytes : List UInt8) : Prop := ∀ e ∈ escapes bytes, isEscape e = true

instance (bytes : List UInt8) : Decidable (WellEscaped bytes) :=
  inferInstanceAs (Decidable (∀ e ∈ escapes bytes, isEscape e = true))

/-- The byte that two digits spell. -/
def pairByte? (high low : UInt8) : Option UInt8 := byteOf (byteChar high) (byteChar low)

/-- That a function **replaces escapes**: a well-formed one by the byte that it spells, and it keeps
every other byte but percent signs, of which nothing is said. -/
structure ReplacesEscapes (replace : List UInt8 → List UInt8) : Prop where
  nil : replace [] = []
  escape : ∀ {high low byte : UInt8} (rest : List UInt8), pairByte? high low = some byte →
    replace (percentByte :: high :: low :: rest) = byte :: replace rest
  keep : ∀ {b : UInt8} (rest : List UInt8), b ≠ percentByte →
    replace (b :: rest) = b :: replace rest

/-- The text that a component stands for, by two passes over its bytes. -/
def decodeInPasses (replace : List UInt8 → List UInt8) (raw : List Char) :
    Except PercentError (List Char) :=
  if WellEscaped (Utf8.encode raw) then
    match Utf8.decode (replace (Utf8.encode raw)) with
    | .ok text => .ok text
    | .error flaw => .error (.notUtf8 raw flaw)
  else .error (.malformedEscape raw)

variable {raw text : List Char} {c high low : Char} {b byte : UInt8} {bs rest bytes : List UInt8}
  {replace : List UInt8 → List UInt8}

/-! ### Characters and their first bytes -/

theorem byteChar_ofNat (h : c.val.toNat ≤ 0x7F) : byteChar (UInt8.ofNat c.val.toNat) = c := by
  rw [byteChar, Utf8.toNat_ofNat (by omega)]
  exact Char.ofNat_toNat c

theorem le_of_isHexDigit (h : c.isHexDigit = true) : c.val.toNat ≤ 0x7F := by
  rw [← isSome_digitValue] at h
  obtain ⟨v, hv⟩ := Option.isSome_iff_exists.1 h
  exact le_of_isUnreserved (isUnreserved_of_digitValue hv)

/-- A byte beyond ASCII is no digit. -/
theorem isHexDigit_byteChar_of_le (h : 0x80 ≤ b.toNat) : (byteChar b).isHexDigit = false := by
  rw [Bool.eq_false_iff]
  intro hdigit
  have hle := le_of_isHexDigit hdigit
  have hb : (byteChar b).val.toNat = b.toNat := by
    have hlt := b.toNat_lt
    exact Utf8.val_ofNat (.inl (by omega))
  omega

/-- A digit is one byte. -/
theorem encodeChar_of_isHexDigit (h : c.isHexDigit = true) :
    ∃ b, String.utf8EncodeChar c = [b] ∧ byteChar b = c :=
  ⟨_, Utf8.encodeChar_of_le (le_of_isHexDigit h), byteChar_ofNat (le_of_isHexDigit h)⟩

/-- Any other character begins with a byte that is no digit. -/
theorem encodeChar_of_not_isHexDigit (h : c.isHexDigit = false) :
    ∃ b more, String.utf8EncodeChar c = b :: more ∧ (byteChar b).isHexDigit = false := by
  by_cases hc : c.val.toNat ≤ 0x7F
  · exact ⟨_, [], Utf8.encodeChar_of_le hc, by rw [byteChar_ofNat hc, h]⟩
  · obtain ⟨b, more, hb⟩ := List.exists_cons_of_ne_nil (String.utf8EncodeChar_ne_nil (c := c))
    have hlarge := Utf8.le_of_mem_encodeChar hc (hb ▸ List.mem_cons_self)
    exact ⟨b, more, hb, isHexDigit_byteChar_of_le hlarge⟩

/-- The byte of a percent sign is in no other character. -/
theorem percentByte_mem_encode_iff : percentByte ∈ Utf8.encode raw ↔ '%' ∈ raw :=
  Utf8.mem_encode_iff (c := '%') (by decide)

theorem percentByte_not_mem_encodeChar (h : c ≠ '%') : percentByte ∉ String.utf8EncodeChar c := by
  have hone : Utf8.encode [c] = String.utf8EncodeChar c := by
    rw [Utf8.encode_cons, Utf8.encode_nil, List.append_nil]
  rw [← hone, percentByte_mem_encode_iff, List.mem_singleton]
  exact h.symm

theorem isSome_byteOf (high low : Char) :
    (byteOf high low).isSome = (high.isHexDigit && low.isHexDigit) := by
  rw [byteOf, ← isSome_digitValue, ← isSome_digitValue]
  cases digitValue high <;> cases digitValue low <;> rfl

/-! ### Both passes over bytes -/

theorem escapes_keep (h : b ≠ percentByte) : escapes (b :: rest) = escapes rest := by
  rw [escapes.eq_def]
  exact if_neg h

theorem escapes_percent {high low : UInt8} :
    escapes (percentByte :: high :: low :: rest) = [high, low] :: escapes rest := by
  rw [escapes, if_pos rfl]

/-- Bytes without a percent sign are passed over. -/
theorem escapes_append (h : percentByte ∉ bs) : escapes (bs ++ rest) = escapes rest := by
  induction bs with
  | nil => rfl
  | cons b bs ih =>
    obtain ⟨hb, hbs⟩ := not_or.1 (mt List.mem_cons.2 h)
    rw [List.cons_append, escapes_keep (Ne.symm hb), ih hbs]

theorem wellEscaped_append (h : percentByte ∉ bs) :
    WellEscaped (bs ++ rest) ↔ WellEscaped rest := by
  rw [WellEscaped, WellEscaped, escapes_append h]

theorem ReplacesEscapes.append (hreplace : ReplacesEscapes replace) (h : percentByte ∉ bs) :
    replace (bs ++ rest) = bs ++ replace rest := by
  induction bs with
  | nil => rfl
  | cons b bs ih =>
    obtain ⟨hb, hbs⟩ := not_or.1 (mt List.mem_cons.2 h)
    rw [List.cons_append, hreplace.keep _ (Ne.symm hb), ih hbs, List.cons_append]

theorem wellEscaped_percent {high low : UInt8} :
    WellEscaped (percentByte :: high :: low :: rest) ↔
      ((byteChar high).isHexDigit && (byteChar low).isHexDigit) = true ∧ WellEscaped rest := by
  rw [WellEscaped, escapes_percent, List.forall_mem_cons]
  exact Iff.rfl

/-- A percent sign with less than two bytes behind it is no escape. -/
theorem not_wellEscaped_of_cut (h : bs.length < 2) : ¬ WellEscaped (percentByte :: bs) := by
  rcases bs with - | ⟨b, - | ⟨b', bs⟩⟩
  · simp [WellEscaped, escapes, isEscape]
  · simp [WellEscaped, escapes, isEscape]
  · simp only [List.length_cons] at h
    omega

/-- A percent sign without a digit behind it is no escape. -/
theorem not_wellEscaped_of_first (h : (byteChar b).isHexDigit = false) :
    ¬ WellEscaped (percentByte :: b :: rest) := by
  cases rest with
  | nil => exact not_wellEscaped_of_cut Nat.one_lt_two
  | cons b' rest =>
    rw [wellEscaped_percent, h]
    simp

/-- A percent sign with one digit behind it is no escape. -/
theorem not_wellEscaped_of_second {high : UInt8} (h : (byteChar b).isHexDigit = false) :
    ¬ WellEscaped (percentByte :: high :: b :: rest) := by
  rw [wellEscaped_percent, h]
  simp

/-! ### Both passes and the characters -/

theorem encode_percent (raw : List Char) :
    Utf8.encode ('%' :: raw) = percentByte :: Utf8.encode raw := rfl

/-- An escape in characters is one in bytes, and spells the same byte. -/
theorem exists_encode_escape (h : byteOf high low = some byte) (rest : List Char) :
    ∃ b₁ b₂, Utf8.encode (high :: low :: rest) = b₁ :: b₂ :: Utf8.encode rest ∧
      ((byteChar b₁).isHexDigit && (byteChar b₂).isHexDigit) = true ∧
      pairByte? b₁ b₂ = some byte := by
  have hdigits : (high.isHexDigit && low.isHexDigit) = true := by
    rw [← isSome_byteOf, h]
    rfl
  obtain ⟨hhigh, hlow⟩ := Bool.and_eq_true_iff.1 hdigits
  obtain ⟨b₁, hb₁, hchar₁⟩ := encodeChar_of_isHexDigit hhigh
  obtain ⟨b₂, hb₂, hchar₂⟩ := encodeChar_of_isHexDigit hlow
  refine ⟨b₁, b₂, ?_, ?_, ?_⟩
  · rw [Utf8.encode_cons, Utf8.encode_cons, hb₁, hb₂]
    rfl
  · rw [hchar₁, hchar₂, hdigits]
  · rw [pairByte?, hchar₁, hchar₂, h]

/-- **What the characters spell, the passes make of the bytes.** -/
theorem of_unescape_eq_some (hreplace : ReplacesEscapes replace)
    (h : unescape raw = some bytes) :
    WellEscaped (Utf8.encode raw) ∧ replace (Utf8.encode raw) = bytes := by
  fun_induction unescape raw generalizing bytes with
  | case1 =>
    obtain rfl := Option.some_inj.1 h
    exact ⟨by simp [WellEscaped, escapes], hreplace.nil⟩
  | case2 high low rest byte hbyte ih =>
    obtain ⟨bytes, hbytes, rfl⟩ := Option.map_eq_some_iff.1 h
    obtain ⟨hwell, hrest⟩ := ih hbytes
    obtain ⟨b₁, b₂, hencode, hdigits, hpair⟩ := exists_encode_escape hbyte rest
    rw [encode_percent, hencode, wellEscaped_percent, hreplace.escape _ hpair, hrest]
    exact ⟨⟨hdigits, hwell⟩, rfl⟩
  | case3 => simp at h
  | case4 => simp at h
  | case5 c rest hc ih =>
    obtain ⟨bytes, hbytes, rfl⟩ := Option.map_eq_some_iff.1 h
    obtain ⟨hwell, hrest⟩ := ih hbytes
    have hmem := percentByte_not_mem_encodeChar (c := c) fun h => hc h
    rw [Utf8.encode_cons, wellEscaped_append hmem, hreplace.append hmem, hrest]
    exact ⟨hwell, rfl⟩

/-- **What the characters refuse, the first pass refuses.** -/
theorem not_wellEscaped_of_unescape (h : unescape raw = none) :
    ¬ WellEscaped (Utf8.encode raw) := by
  fun_induction unescape raw with
  | case1 => simp at h
  | case2 high low rest byte hbyte ih =>
    obtain ⟨b₁, b₂, hencode, -, -⟩ := exists_encode_escape hbyte rest
    rw [encode_percent, hencode, wellEscaped_percent]
    exact fun hwell => ih (Option.map_eq_none_iff.1 h) hwell.2
  | case3 high low rest hbyte =>
    have hdigits : (high.isHexDigit && low.isHexDigit) = false := by
      rw [← isSome_byteOf, hbyte]
      rfl
    rw [encode_percent, Utf8.encode_cons, Utf8.encode_cons]
    cases hhigh : high.isHexDigit with
    | false =>
      obtain ⟨b, more, hb, hdigit⟩ := encodeChar_of_not_isHexDigit hhigh
      rw [hb]
      exact not_wellEscaped_of_first hdigit
    | true =>
      rw [hhigh, Bool.true_and] at hdigits
      obtain ⟨b₁, hb₁, -⟩ := encodeChar_of_isHexDigit hhigh
      obtain ⟨b, more, hb, hdigit⟩ := encodeChar_of_not_isHexDigit hdigits
      rw [hb₁, hb]
      exact not_wellEscaped_of_second hdigit
  | case4 rest hcut =>
    rw [encode_percent]
    rcases rest with - | ⟨c, - | ⟨low, rest⟩⟩
    · exact not_wellEscaped_of_cut Nat.two_pos
    · rw [Utf8.encode_cons, Utf8.encode_nil, List.append_nil]
      cases hdigit : c.isHexDigit with
      | false =>
        obtain ⟨b, more, hb, hfirst⟩ := encodeChar_of_not_isHexDigit hdigit
        rw [hb]
        exact not_wellEscaped_of_first hfirst
      | true =>
        obtain ⟨b, hb, -⟩ := encodeChar_of_isHexDigit hdigit
        rw [hb]
        exact not_wellEscaped_of_cut Nat.one_lt_two
    · exact absurd rfl (hcut c low rest)
  | case5 c rest hc ih =>
    have hmem := percentByte_not_mem_encodeChar (c := c) fun h => hc h
    rw [Utf8.encode_cons, wellEscaped_append hmem]
    exact ih (Option.map_eq_none_iff.1 h)

/-- The passes decode as the characters do. -/
theorem decodeInPasses_eq (hreplace : ReplacesEscapes replace) (raw : List Char) :
    decodeInPasses replace raw = decode raw := by
  rw [decodeInPasses, decode]
  cases h : unescape raw with
  | none => rw [if_neg (not_wellEscaped_of_unescape h)]
  | some bytes =>
    obtain ⟨hwell, rfl⟩ := of_unescape_eq_some hreplace h
    exact if_pos hwell

/-- **What is decoded.** A component stands for a text when it has well-formed escapes only and they
leave the bytes of the text. -/
theorem decode_eq_ok_iff (hreplace : ReplacesEscapes replace) :
    decode raw = .ok text ↔
      WellEscaped (Utf8.encode raw) ∧ replace (Utf8.encode raw) = Utf8.encode text := by
  rw [← decodeInPasses_eq hreplace, decodeInPasses]
  split_ifs with hwell
  · rw [and_iff_right hwell, ← Utf8.decode_eq_ok_iff]
    cases Utf8.decode (replace (Utf8.encode raw)) <;> simp
  · simp [hwell]

/-! ### Encodings -/

/-- That bytes **encode** other bytes: some of these are escaped, among them at least the percent
signs, and the others are kept. -/
inductive Encodes : List UInt8 → List UInt8 → Prop
  | nil : Encodes [] []
  | keep {b : UInt8} {bs bytes : List UInt8} (hb : b ≠ percentByte) (h : Encodes bs bytes) :
      Encodes (b :: bs) (b :: bytes)
  | escape {high low byte : UInt8} {bs bytes : List UInt8} (hbyte : pairByte? high low = some byte)
      (h : Encodes bs bytes) : Encodes (percentByte :: high :: low :: bs) (byte :: bytes)

theorem Encodes.wellEscaped (h : Encodes bs bytes) : WellEscaped bs := by
  induction h with
  | nil => simp [WellEscaped, escapes]
  | keep hb _ ih => rwa [WellEscaped, escapes_keep hb]
  | @escape high low byte _ _ hbyte _ ih =>
    have hdigits : ((byteChar high).isHexDigit && (byteChar low).isHexDigit) = true := by
      rw [← isSome_byteOf, ← pairByte?, hbyte]
      rfl
    exact wellEscaped_percent.2 ⟨hdigits, ih⟩

theorem Encodes.replace_eq (hreplace : ReplacesEscapes replace) (h : Encodes bs bytes) :
    replace bs = bytes := by
  induction h with
  | nil => exact hreplace.nil
  | keep hb _ ih => rw [hreplace.keep _ hb, ih]
  | escape hbyte _ ih => rw [hreplace.escape _ hbyte, ih]

theorem Encodes.append {bs' bytes' : List UInt8} (h : Encodes bs bytes)
    (h' : Encodes bs' bytes') : Encodes (bs ++ bs') (bytes ++ bytes') := by
  induction h with
  | nil => exact h'
  | keep hb _ ih => exact .keep hb ih
  | escape hbyte _ ih => exact .escape hbyte ih

/-- Bytes without a percent sign encode themselves. -/
theorem Encodes.refl (h : percentByte ∉ bs) : Encodes bs bs := by
  induction bs with
  | nil => exact .nil
  | cons b bs ih =>
    obtain ⟨hb, hbs⟩ := not_or.1 (mt List.mem_cons.2 h)
    exact .keep (Ne.symm hb) (ih hbs)

/-- The escape of a byte, its digits in lower case. -/
def escapeOf (b : UInt8) : List Char :=
  ['%', Nat.digitChar (b.toNat / 16), Nat.digitChar (b.toNat % 16)]

/-- A text with the bytes of all its characters escaped, but of those that are kept. -/
def percentEncode (kept : Char → Bool) (text : List Char) : List Char :=
  text.flatMap fun c => if kept c then [c] else (String.utf8EncodeChar c).flatMap escapeOf

theorem encodes_escapeOf (b : UInt8) : Encodes (Utf8.encode (escapeOf b)) [b] := by
  have hdigit : ∀ n : Fin 16, digitValue (Nat.digitChar n.val) = some n.val := by decide
  have hlt := b.toNat_lt
  have hb : byteOf (Nat.digitChar (b.toNat / 16)) (Nat.digitChar (b.toNat % 16)) = some b := by
    rw [byteOf, hdigit ⟨b.toNat / 16, by omega⟩, hdigit ⟨b.toNat % 16, by omega⟩]
    simp [Nat.div_add_mod]
  obtain ⟨b₁, b₂, hencode, -, hpair⟩ := exists_encode_escape hb []
  rw [escapeOf, encode_percent, hencode]
  exact .escape hpair .nil

theorem encodes_flatMap_escapeOf (bytes : List UInt8) :
    Encodes (Utf8.encode (bytes.flatMap escapeOf)) bytes := by
  induction bytes with
  | nil => exact .nil
  | cons b bytes ih =>
    rw [List.flatMap_cons, Utf8.encode_append]
    exact (encodes_escapeOf b).append ih

/-- Every set of characters without the percent sign can be kept. -/
theorem encodes_percentEncode {kept : Char → Bool} (hkept : kept '%' = false)
    (text : List Char) :
    Encodes (Utf8.encode (percentEncode kept text)) (Utf8.encode text) := by
  induction text with
  | nil => exact .nil
  | cons c text ih =>
    rw [percentEncode, List.flatMap_cons, ← percentEncode, Utf8.encode_append, Utf8.encode_cons]
    refine Encodes.append ?_ ih
    split_ifs with hc
    · have hpercent : c ≠ '%' := by
        rintro rfl
        simp [hkept] at hc
      rw [Utf8.encode_cons, Utf8.encode_nil, List.append_nil]
      exact .refl (percentByte_not_mem_encodeChar hpercent)
    · exact encodes_flatMap_escapeOf _

/-- **Components are decoded exactly.** With any function that replaces escapes, the two passes over
the bytes decode as the characters do. A component stands for a text just when each percent sign at
which the scan stops is followed by two digits and the bytes that replacing leaves are those of the
text. So every encoding of a text that escapes at least the percent signs is decoded to the text, be
it which bytes are escaped and how their digits are written; and a component without a percent sign
stands for itself. -/
theorem decode_exact (hreplace : ReplacesEscapes replace) (raw text : List Char) :
    decodeInPasses replace raw = decode raw ∧
      (decode raw = .ok text ↔
        WellEscaped (Utf8.encode raw) ∧ replace (Utf8.encode raw) = Utf8.encode text) ∧
      (Encodes (Utf8.encode raw) (Utf8.encode text) → decode raw = .ok text) ∧
      (∀ kept, kept '%' = false → decode (percentEncode kept text) = .ok text) ∧
      ('%' ∉ raw → decode raw = .ok raw) := by
  have hencodes : ∀ {raw text}, Encodes (Utf8.encode raw) (Utf8.encode text) →
      decode raw = .ok text := fun h =>
    (decode_eq_ok_iff hreplace).2 ⟨h.wellEscaped, h.replace_eq hreplace⟩
  refine ⟨decodeInPasses_eq hreplace raw, decode_eq_ok_iff hreplace, hencodes,
    fun kept hkept => hencodes (encodes_percentEncode hkept text), fun hmem => ?_⟩
  exact hencodes (.refl (mt percentByte_mem_encode_iff.1 hmem))

/-- Bytes with their escapes replaced, and with the percent signs kept that open none. -/
def replaceEscapes : List UInt8 → List UInt8
  | [] => []
  | b :: rest =>
    if b = percentByte then
      match rest with
      | high :: low :: behind =>
        match pairByte? high low with
        | some byte => byte :: replaceEscapes behind
        | none => b :: replaceEscapes (high :: low :: behind)
      | cut => b :: cut
    else b :: replaceEscapes rest

theorem replacesEscapes_replaceEscapes : ReplacesEscapes replaceEscapes where
  nil := rfl
  escape rest h := by
    rw [replaceEscapes, if_pos rfl, h]
  keep rest h := by
    rw [replaceEscapes.eq_def]
    exact if_neg h

/-- Escapes in both cases, of the bytes of one character and of a percent sign, beside a plus sign
and a character that is kept; and a percent sign that opens no escape in front of an escape. -/
theorem decode_exact_mixed :
    ReplacesEscapes replaceEscapes ∧
      decodeInPasses replaceEscapes "%c3%A9+%25ü".toList = .ok "é+%ü".toList ∧
      decode (percentEncode (· != '%') "é+%ü".toList) = .ok "é+%ü".toList ∧
      decode "é+ü".toList = .ok "é+ü".toList ∧
      decode "%%41".toList ≠ .ok "%A".toList := by
  have hreplace := replacesEscapes_replaceEscapes
  have hmixed : Encodes (Utf8.encode "%c3%A9+%25ü".toList) (Utf8.encode "é+%ü".toList) :=
    .escape rfl (.escape rfl (.keep (by decide) (.escape rfl
      (.keep (by decide) (.keep (by decide) .nil)))))
  obtain ⟨hpasses, -, hdecode, hkept, -⟩ :=
    decode_exact hreplace "%c3%A9+%25ü".toList "é+%ü".toList
  refine ⟨hreplace, hpasses.trans (hdecode hmixed), hkept _ rfl, ?_, fun h => ?_⟩
  · exact (decode_exact hreplace "é+ü".toList []).2.2.2.2 (by decide)
  · have hwell := ((decode_exact hreplace "%%41".toList "%A".toList).2.1.1 h).1
    exact absurd hwell (by decide)

end Percent

end HttpEngine
