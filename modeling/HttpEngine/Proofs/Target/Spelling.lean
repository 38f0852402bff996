import HttpEngine.Proofs.Text.Encoded
import HttpEngine.Target.Basic
import Mathlib.Data.List.Forall2
import Mathlib.Data.List.TakeWhile
/-!
# Targets that are spelt out

A component **spells** bytes (`Percent.Spells`) if each of its characters stands for itself, being
a letter, a digit or one of `-`, `.`, `_` and `~`, or else opens an escape. Any byte may be escaped,
in either case of the digits, and every byte that is none of these characters has to be. A component
that spells the bytes of a text is decoded to the text (`Percent.Spells.decode_eq`).

A target of such components, each behind a slash, is parsed to their texts
(`Target.parse_spelling`). The components hold no slash, so the path is split where it was joined.
One list is beyond this: a single empty component makes the path that no component makes.
-/

namespace HttpEngine

open Text

namespace Percent

/-- The characters that need no escape in any component. -/
def isUnreserved (c : Char) : Bool :=
  c.isAlphanum || c == '-' || c == '.' || c == '_' || c == '~'

/-- That a component spells bytes, with all that is not unreserved escaped. -/
inductive Spells : List Char → List UInt8 → Prop
  | nil : Spells [] []
  /-- An unreserved character stands for itself. -/
  | plain {c : Char} {raw : List Char} {bytes : List UInt8} (hc : isUnreserved c = true)
      (h : Spells raw bytes) : Spells (c :: raw) (UInt8.ofNat c.toNat :: bytes)
  /-- Any byte may be escaped. -/
  | escape {high low : Char} {b : UInt8} {raw : List Char} {bytes : List UInt8}
      (hb : byteOf high low = some b) (h : Spells raw bytes) :
      Spells ('%' :: high :: low :: raw) (b :: bytes)

/-- That a component spells the bytes of a text. -/
def SpellsText (raw : List Char) (text : String) : Prop := Spells raw (Utf8.bytesOf text)

variable {raw text : List Char} {bytes : List UInt8} {c : Char}

theorem isAlphanum_iff : c.isAlphanum = true ↔
    ((65 ≤ c.toNat ∧ c.toNat ≤ 90) ∨ (97 ≤ c.toNat ∧ c.toNat ≤ 122)) ∨
      (48 ≤ c.toNat ∧ c.toNat ≤ 57) := by
  have hupper : c.isUpper = true ↔ 65 ≤ c.toNat ∧ c.toNat ≤ 90 := decide_eq_true_iff
  have hlower : c.isLower = true ↔ 97 ≤ c.toNat ∧ c.toNat ≤ 122 :=
    Bool.and_eq_true_iff.trans (and_congr decide_eq_true_iff decide_eq_true_iff)
  have hdigit : c.isDigit = true ↔ 48 ≤ c.toNat ∧ c.toNat ≤ 57 :=
    Bool.and_eq_true_iff.trans (and_congr decide_eq_true_iff decide_eq_true_iff)
  have hletter : c.isAlpha = true ↔ c.isUpper = true ∨ c.isLower = true := Bool.or_eq_true_iff
  rw [← hupper, ← hlower, ← hdigit, ← hletter]
  exact Bool.or_eq_true_iff

theorem isUnreserved_iff : isUnreserved c = true ↔
    c.isAlphanum = true ∨ c ∈ ['-', '.', '_', '~'] := by
  simp [isUnreserved, or_assoc]

theorem le_of_isUnreserved (h : isUnreserved c = true) : c.val.toNat ≤ 0x7F := by
  rcases isUnreserved_iff.1 h with halnum | hmem
  · have hrange := isAlphanum_iff.1 halnum
    change c.toNat ≤ 0x7F
    omega
  · simp only [List.mem_cons, List.not_mem_nil, or_false] at hmem
    rcases hmem with rfl | rfl | rfl | rfl <;> decide

theorem isUnreserved_of_digitValue {v : Nat} (h : digitValue c = some v) :
    isUnreserved c = true := by
  refine isUnreserved_iff.2 (.inl (isAlphanum_iff.2 ?_))
  rw [digitValue] at h
  split_ifs at h with hdigit hlower hupper
  · exact .inr hdigit
  · exact .inl (.inr ⟨hlower.1, Nat.le_trans hlower.2 (by decide)⟩)
  · exact .inl (.inl ⟨hupper.1, Nat.le_trans hupper.2 (by decide)⟩)

/-- The characters of components are characters of paths. -/
theorem isPathChar_of_component (h : isUnreserved c = true ∨ c = '%') :
    Reference.isPathChar c = true := by
  rcases h with h | rfl
  · rcases isUnreserved_iff.1 h with halnum | hmem
    · simp [Reference.isPathChar, Reference.isHierarchyChar, halnum]
    · simp only [List.mem_cons, List.not_mem_nil, or_false] at hmem
      rcases hmem with rfl | rfl | rfl | rfl <;> decide
  · decide

namespace Spells

/-- Each character of a component is unreserved or a percent sign. -/
theorem forall_mem (h : Spells raw bytes) : ∀ c ∈ raw, isUnreserved c = true ∨ c = '%' := by
  induction h with
  | nil => simp
  | plain hc _ ih => exact List.forall_mem_cons.2 ⟨.inl hc, ih⟩
  | @escape high low _ _ _ hb _ ih =>
    have hdigits : isUnreserved high = true ∧ isUnreserved low = true := by
      rw [byteOf] at hb
      split at hb
      · next hhigh hlow =>
        exact ⟨isUnreserved_of_digitValue hhigh, isUnreserved_of_digitValue hlow⟩
      · simp at hb
    exact List.forall_mem_cons.2 ⟨.inr rfl, List.forall_mem_cons.2
      ⟨.inl hdigits.1, List.forall_mem_cons.2 ⟨.inl hdigits.2, ih⟩⟩⟩

/-- No separator is in a component. -/
theorem not_mem (h : Spells raw bytes) (hc : isUnreserved c = false) (hne : c ≠ '%') :
    c ∉ raw := by
  intro hmem
  rcases h.forall_mem c hmem with hunreserved | hpercent
  · simp [hc] at hunreserved
  · exact hne hpercent

theorem unescape_eq (h : Spells raw bytes) : unescape raw = some bytes := by
  induction h with
  | nil => rfl
  | @plain c raw bytes hc _ ih =>
    have hpercent : c ≠ '%' := by
      rintro rfl
      exact absurd hc (by decide)
    rw [unescape_cons hpercent, ih, Utf8.encodeChar_of_le (le_of_isUnreserved hc)]
    rfl
  | escape hb _ ih => rw [unescape, hb, ih]; rfl

/-- **Spelling is undone by decoding.** -/
theorem decode_eq (h : Spells raw (Utf8.encode text)) : decode raw = .ok text := by
  rw [decode, h.unescape_eq]
  simp only [Utf8.decode_encode]

end Spells

/-- Every byte can be escaped. -/
theorem exists_byteOf (b : UInt8) : ∃ high low, byteOf high low = some b := by
  have hdigit : ∀ n : Fin 16, ∃ c, digitValue c = some n.val := fun n =>
    ⟨"0123456789ABCDEF".toList.getD n.val '0', by revert n; decide⟩
  have hb : b.toNat < 256 := b.toNat_lt
  obtain ⟨high, hhigh⟩ := hdigit ⟨b.toNat / 16, by omega⟩
  obtain ⟨low, hlow⟩ := hdigit ⟨b.toNat % 16, by omega⟩
  refine ⟨high, low, ?_⟩
  rw [byteOf, hhigh, hlow]
  simp [Nat.div_add_mod]

/-- So all bytes are spelt by some component. -/
theorem exists_spells (bytes : List UInt8) : ∃ raw, Spells raw bytes := by
  induction bytes with
  | nil => exact ⟨[], .nil⟩
  | cons b bytes ih =>
    obtain ⟨high, low, hb⟩ := exists_byteOf b
    obtain ⟨raw, hraw⟩ := ih
    exact ⟨'%' :: high :: low :: raw, .escape hb hraw⟩

/-- Only the empty component stands for the empty text. -/
theorem eq_nil_of_decode (h : decode raw = .ok []) : raw = [] := by
  have hbytes : unescape raw = some [] := by
    rw [decode] at h
    split at h
    · simp at h
    · next bytes hunescape =>
      split at h
      · next text hdecode =>
        rw [Except.ok.inj h] at hdecode
        rw [hunescape, ← Utf8.encode_of_decode hdecode, Utf8.encode_nil]
      · simp at h
  -- every escape spells a byte, and every other character at least one
  fun_cases unescape raw with
  | case1 => rfl
  | case2 high low rest b hb => simp [unescape, hb] at hbytes
  | case3 high low rest hb => simp [unescape, hb] at hbytes
  | case4 rest hrest => simp [unescape] at hbytes
  | case5 c rest hc => simp [unescape_cons (fun h => hc h)] at hbytes

end Percent

/-! ### Lists that are read piece by piece -/

theorem exists_of_forall₂_mem {α β : Type} {r : α → β → Prop} {as : List α} {bs : List β}
    (h : List.Forall₂ r as bs) : ∀ a ∈ as, ∃ b, r a b := by
  induction h with
  | nil => simp
  | cons hab _ ih => exact List.forall_mem_cons.2 ⟨⟨_, hab⟩, ih⟩

theorem exists_forall₂ {α β : Type} {r : α → β → Prop} (h : ∀ b, ∃ a, r a b) (bs : List β) :
    ∃ as, List.Forall₂ r as bs := by
  induction bs with
  | nil => exact ⟨[], .nil⟩
  | cons b bs ih =>
    obtain ⟨a, ha⟩ := h b
    obtain ⟨as, has⟩ := ih
    exact ⟨a :: as, .cons ha has⟩

theorem mapM_eq_ok {α β ε : Type} {f : α → Except ε β} {as : List α} {bs : List β}
    (h : List.Forall₂ (fun a b => f a = .ok b) as bs) : as.mapM f = .ok bs := by
  induction h with
  | nil => rfl
  | cons hab _ ih => rw [List.mapM_cons, hab, ih]; rfl

/-! ### Paths -/

theorem Reference.ofPathAndQuery_of_path {path : List Char} (hne : path ≠ [])
    (h : ∀ c ∈ path, isPathChar c = true ∧ c ≠ '?' ∧ c ≠ '#') :
    ofPathAndQuery path = .ok ⟨path, none⟩ := by
  have hends : ∀ c ∈ path, (c != '?' && c != '#') = true := fun c hc => by simp [h c hc]
  have hchars : path.all isPathChar = true := List.all_eq_true.2 fun c hc => (h c hc).1
  rw [ofPathAndQuery, List.takeWhile_eq_self_iff.2 hends, List.dropWhile_eq_nil_iff.2 hends]
  simp [hchars, hne]

/-- What is in joined pieces is the separator or in one of them. -/
theorem mem_of_mem_intercalate {a : Char} {raws : List (List Char)} {c : Char}
    (h : c ∈ [a].intercalate raws) : c = a ∨ ∃ raw ∈ raws, c ∈ raw := by
  induction raws with
  | nil => simp at h
  | cons raw rest ih =>
    cases rest with
    | nil => exact .inr ⟨raw, List.mem_cons_self, by simpa using h⟩
    | cons second rest =>
      rw [List.intercalate_cons_cons, List.append_assoc, List.mem_append, List.mem_append,
        List.mem_singleton] at h
      rcases h with hraw | hsep | hrest
      · exact .inr ⟨raw, List.mem_cons_self, hraw⟩
      · exact .inl hsep
      · refine (ih hrest).imp_right ?_
        rintro ⟨piece, hpiece, hc⟩
        exact ⟨piece, List.mem_cons_of_mem raw hpiece, hc⟩

/-- A path that was joined is split where it was joined. -/
theorem rawSegments_join {raws : List (List Char)} (hslash : ∀ raw ∈ raws, '/' ∉ raw)
    (hne : raws ≠ [[]]) : rawSegments ('/' :: ['/'].intercalate raws) = raws := by
  rcases eq_or_ne raws [] with rfl | hnil
  · rfl
  · have hsplit := List.splitOn_intercalate '/' hslash hnil
    have hjoin : ['/'].intercalate raws ≠ [] := by
      intro hempty
      rw [hempty] at hsplit
      exact hne (hsplit.symm.trans (by simp))
    rw [rawSegments]
    simp only [List.isEmpty_iff, hjoin, if_false, hsplit]

/-- A path has no segments or more than an empty one. -/
theorem rawSegments_ne (path : List Char) : rawSegments path ≠ [[]] := by
  have hsplit : ∀ rest : List Char, (if rest.isEmpty then [] else rest.splitOn '/') ≠ [[]] := by
    intro rest h
    split_ifs at h with hempty
    have hjoin : ['/'].intercalate (rest.splitOn '/') = rest := List.intercalate_splitOn '/'
    rw [h] at hjoin
    exact hempty (List.isEmpty_iff.2 hjoin.symm)
  exact hsplit _

namespace Target

/-- The text of a target whose segments are spelt in the given ways. -/
def spelling (raws : List (List Char)) : String := String.ofList ('/' :: ['/'].intercalate raws)

variable {raws : List (List Char)} {texts : List String}

/-- The empty component spells the empty text only. -/
theorem eq_of_spells_nil (h : List.Forall₂ Percent.SpellsText [[]] texts) : texts = [""] := by
  rw [List.forall₂_cons_left_iff] at h
  obtain ⟨text, rest, hnil, hrest, rfl⟩ := h
  obtain rfl := List.forall₂_nil_left_iff.1 hrest
  have hdecode : .ok [] = Except.ok text.toList := Percent.Spells.decode_eq hnil
  rw [String.toList_eq_nil_iff.1 (Except.ok.inj hdecode).symm]

theorem mapM_component (h : List.Forall₂ Percent.SpellsText raws texts) :
    raws.mapM component = .ok texts := by
  refine mapM_eq_ok (h.imp fun raw text hspells => ?_)
  rw [component, Percent.Spells.decode_eq hspells]
  simp only [String.ofList_toList]

/-- The components of a path hold no slash. -/
theorem slash_not_mem (h : List.Forall₂ Percent.SpellsText raws texts) :
    ∀ raw ∈ raws, '/' ∉ raw := by
  intro raw hraw
  obtain ⟨text, hspells⟩ := exists_of_forall₂_mem h raw hraw
  exact Percent.Spells.not_mem hspells (by decide) (by decide)

/-- A path of components holds characters of paths and nothing that ends it. -/
theorem forall_mem_path (h : List.Forall₂ Percent.SpellsText raws texts) :
    ∀ c ∈ '/' :: ['/'].intercalate raws,
      Reference.isPathChar c = true ∧ c ≠ '?' ∧ c ≠ '#' := by
  intro c hc
  have hslashed : c = '/' ∨ ∃ raw ∈ raws, c ∈ raw := by
    rcases List.mem_cons.1 hc with rfl | hc
    · exact .inl rfl
    · exact mem_of_mem_intercalate hc
  rcases hslashed with rfl | ⟨raw, hraw, hc⟩
  · decide
  · obtain ⟨text, hspells⟩ := exists_of_forall₂_mem h raw hraw
    refine ⟨Percent.isPathChar_of_component (hspells.forall_mem c hc), ?_, ?_⟩
    · rintro rfl
      exact hspells.not_mem (by decide) (by decide) hc
    · rintro rfl
      exact hspells.not_mem (by decide) (by decide) hc

/-- **Spelt targets.** Components that spell texts, each behind a slash, are parsed to the texts. -/
theorem parse_spelling (h : List.Forall₂ Percent.SpellsText raws texts) (hne : raws ≠ [[]])
    (hsize : (spelling raws).utf8ByteSize ≤ Reference.maxBytes) :
    parse (spelling raws) = .ok ⟨spelling raws, texts, none, ∅⟩ := by
  have hreference : Reference.parse (spelling raws) =
      .ok ⟨'/' :: ['/'].intercalate raws, none⟩ := by
    rw [Reference.parse, if_neg (Nat.not_lt.2 hsize), spelling, String.toList_ofList]
    exact Reference.ofPathAndQuery_of_path (List.cons_ne_nil _ _) (forall_mem_path h)
  rw [parse, hreference]
  simp only [ofReference, rawSegments_join (slash_not_mem h) hne, mapM_component h]
  rfl

end Target

end HttpEngine
