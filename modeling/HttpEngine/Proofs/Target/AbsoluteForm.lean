import HttpEngine.Proofs.Target.Spelling
/-!
# Targets in absolute form

A target in absolute form is a scheme, `://`, an authority and a target in origin form. The
characters of a scheme end in front of the colon, and the scan of the authority ends at the first
slash behind it, which is that of the target. So what is left to be read as path and query is the
target, and the absolute form is parsed like it (`Reference.parse_absolute`).

Of the authority it only matters that behind the scheme alone it is a reference too, and that none
of its characters would have ended it (`Reference.dropAuthority_of_parse`). Whether it holds colons,
brackets, an at sign or percent signs, which the scan counts, does not come into it: all that the
scan has counted is judged where the authority ends.
-/

namespace HttpEngine.Reference

open Text

variable {s : AuthorityScan} {authority scheme rest : List Char} {c : Char}

/-! ### Authorities -/

/-- What would be an authority on its own is one in front of what ends it. -/
theorem dropAuthority_append (h : dropAuthority s authority = .ok [])
    (hc : endsAuthority c = true) :
    dropAuthority s (authority ++ c :: rest) = .ok (c :: rest) := by
  induction authority generalizing s with
  | nil =>
    rw [dropAuthority] at h
    rw [List.nil_append, dropAuthority, if_pos hc]
    split_ifs at h ⊢
    rfl
  | cons d authority ih =>
    rw [dropAuthority] at h
    rw [List.cons_append, dropAuthority]
    split_ifs at h ⊢
    -- an authority that ended at `d` would have left it
    · simp at h
    · cases hstep : s.step d with
      | ok s' =>
        rw [hstep] at h
        exact ih h
      | error e =>
        rw [hstep] at h
        simp at h

/-- Nothing is left of an authority none of whose characters ends it. -/
theorem eq_nil_of_dropAuthority (h : dropAuthority s authority = .ok rest)
    (hends : ∀ c ∈ authority, endsAuthority c = false) : rest = [] := by
  induction authority generalizing s with
  | nil =>
    rw [dropAuthority] at h
    split_ifs at h
    exact (Except.ok.inj h).symm
  | cons d authority ih =>
    obtain ⟨hd, hends⟩ := List.forall_mem_cons.1 hends
    rw [dropAuthority, hd, if_neg Bool.false_ne_true] at h
    cases hstep : s.step d with
    | ok s' =>
      rw [hstep] at h
      exact ih h hends
    | error e =>
      rw [hstep] at h
      simp at h

theorem ofHierarchy_append (hne : authority ≠ []) (h : dropAuthority {} authority = .ok [])
    (hc : endsAuthority c = true) :
    ofHierarchy (authority ++ c :: rest) = ofPathAndQuery (c :: rest) := by
  have hlength : (c :: rest).length ≠ (authority ++ c :: rest).length := by
    have := List.length_pos_iff.2 hne
    rw [List.length_append]
    omega
  rw [ofHierarchy, dropAuthority_append h hc]
  simp only [List.isEmpty_iff, List.append_eq_nil_iff, hne, false_and, if_false, if_neg hlength]

/-! ### Schemes -/

theorem isAlphanum_of_toLower (h : c.toLower.isAlphanum = true) : c.isAlphanum = true := by
  rw [Percent.isAlphanum_iff] at h ⊢
  by_cases hupper : 65 ≤ c.toNat ∧ c.toNat ≤ 90
  · exact .inl (.inl hupper)
  · have hlower : c.toLower = c := dif_neg hupper
    rwa [hlower] at h

/-- A text that folds to letters and digits is made of the characters of schemes. -/
theorem isSchemeChar_of_foldCase {text : String} {folded : List Char}
    (h : foldCase text = folded) (hfolded : folded.all Char.isAlphanum = true) :
    ∀ c ∈ text.toList, isSchemeChar c = true := by
  intro c hc
  have hmem : c.toLower ∈ folded := h ▸ List.mem_map_of_mem hc
  simp [isSchemeChar, isAlphanum_of_toLower (List.all_eq_true.1 hfolded _ hmem)]

/-- A scheme is dropped together with what stands behind it. -/
theorem dropScheme_append (hne : scheme ≠ []) (h : ∀ c ∈ scheme, isSchemeChar c = true)
    (hlength : scheme.length ≤ maxScheme) :
    dropScheme (scheme ++ ':' :: '/' :: '/' :: rest) = .ok (some rest) := by
  have hcolon : ¬ isSchemeChar ':' = true := by decide
  have hlong : ¬ (scheme ++ ':' :: '/' :: '/' :: rest).length ≤ 3 := by
    have := List.length_pos_iff.2 hne
    simp only [List.length_append, List.length_cons]
    omega
  rw [dropScheme, List.dropWhile_append_of_pos h, List.dropWhile_cons_of_neg hcolon,
    List.takeWhile_append_of_pos h, List.takeWhile_cons_of_neg hcolon, List.append_nil]
  simp only [if_neg hlong, if_neg (Nat.not_lt.2 hlength)]

/-- A reference in absolute form is read behind its scheme. -/
theorem parse_of_dropScheme {text : String} (hsize : text.utf8ByteSize ≤ maxBytes)
    (h : dropScheme text.toList = .ok (some rest)) : parse text = ofHierarchy rest := by
  rw [parse, if_neg (Nat.not_lt.2 hsize)]
  split
  · next hnil => simp [hnil, dropScheme] at h
  · next path hpath =>
    -- a slash is no character of a scheme, and no colon
    have hslash : ¬ isSchemeChar '/' = true := by decide
    rw [hpath, dropScheme, List.dropWhile_cons_of_neg hslash] at h
    simp at h
  · next hstar =>
    have hsign : ¬ isSchemeChar '*' = true := by decide
    rw [hstar, dropScheme, List.dropWhile_cons_of_neg hsign] at h
    simp at h
  · rw [h]

/-! ### Whole references -/

variable {scheme authority target : String}

theorem toList_absolute (scheme rest : String) :
    (scheme ++ "://" ++ rest).toList = scheme.toList ++ ':' :: '/' :: '/' :: rest.toList := by
  simp

/-- The two schemes of targets, in every case. -/
theorem dropScheme_absolute
    (h : sameFolded scheme "http" = true ∨ sameFolded scheme "https" = true) (rest : String) :
    dropScheme (scheme ++ "://" ++ rest).toList = .ok (some rest.toList) := by
  have hcase : ∃ folded : List Char, foldCase scheme = folded ∧ folded ≠ [] ∧
      folded.length ≤ maxScheme ∧ folded.all Char.isAlphanum = true := by
    rcases h with h | h
    · exact ⟨_, sameFolded_iff.1 h, by decide, by decide, by decide⟩
    · exact ⟨_, sameFolded_iff.1 h, by decide, by decide, by decide⟩
  obtain ⟨folded, hfolded, hne, hlength, hchars⟩ := hcase
  have hlengths : scheme.toList.length = folded.length := by
    rw [← hfolded, foldCase, List.length_map]
  rw [toList_absolute]
  refine dropScheme_append ?_ (isSchemeChar_of_foldCase hfolded hchars) (hlengths ▸ hlength)
  intro hnil
  rw [foldCase, hnil] at hfolded
  exact hne hfolded.symm

/-- An authority that is a reference behind a scheme is not empty, and the scan accepts it. -/
theorem dropAuthority_of_parse
    (hscheme : sameFolded scheme "http" = true ∨ sameFolded scheme "https" = true)
    (hends : ∀ c ∈ authority.toList, endsAuthority c = false)
    (h : ∃ r, parse (scheme ++ "://" ++ authority) = .ok r) :
    authority.toList ≠ [] ∧ dropAuthority {} authority.toList = .ok [] := by
  obtain ⟨r, hr⟩ := h
  have hsize : (scheme ++ "://" ++ authority).utf8ByteSize ≤ maxBytes := by
    by_contra hlong
    rw [parse, if_pos (Nat.not_le.1 hlong)] at hr
    simp at hr
  rw [parse_of_dropScheme hsize (dropScheme_absolute hscheme authority), ofHierarchy] at hr
  split_ifs at hr with hempty
  refine ⟨by simpa using hempty, ?_⟩
  cases hdrop : dropAuthority {} authority.toList with
  | ok rest => rw [eq_nil_of_dropAuthority hdrop hends]
  | error e => simp [hdrop] at hr

/-- **The absolute form is read like the origin form.** -/
theorem parse_absolute
    (hscheme : sameFolded scheme "http" = true ∨ sameFolded scheme "https" = true)
    (hends : ∀ c ∈ authority.toList, endsAuthority c = false)
    (haccepted : ∃ r, parse (scheme ++ "://" ++ authority) = .ok r)
    (htarget : ['/'] <+: target.toList)
    (hsize : (scheme ++ "://" ++ authority ++ target).utf8ByteSize ≤ maxBytes) :
    parse (scheme ++ "://" ++ authority ++ target) = parse target := by
  obtain ⟨hne, hscan⟩ := dropAuthority_of_parse hscheme hends haccepted
  obtain ⟨path, hpath⟩ := htarget
  rw [List.singleton_append] at hpath
  have hsize' : target.utf8ByteSize ≤ maxBytes := by
    rw [String.utf8ByteSize_append] at hsize
    omega
  have hbehind : (authority ++ target).toList = authority.toList ++ '/' :: path := by
    rw [String.toList_append, hpath]
  have hrest := dropScheme_absolute hscheme (authority ++ target)
  rw [← String.append_assoc, hbehind] at hrest
  have horigin : parse target = ofPathAndQuery ('/' :: path) := by
    rw [parse, if_neg (Nat.not_lt.2 hsize'), ← hpath]
    rfl
  rw [parse_of_dropScheme hsize hrest, ofHierarchy_append hne hscan rfl, horigin]

end HttpEngine.Reference
