import HttpEngine.Proofs.Target.Spelling
import HttpEngine.Proofs.Text.MapLookup
import HttpEngine.Proofs.Text.Words
/-!
# Targets that are spelt out with a query

A query spells **parameters**: each is a component for the key, `=` and a component for the value,
and `&` stands between them. The components hold neither of the two, so a query is split where it
was joined, and a parameter that spells two empty texts is still a `=` and not dropped as empty.

A path and a query that spell texts are parsed back to the texts (`Target.parse_spellingWith`). No
parameters are spelt by no query, and of several values of one key the last remains
(`Target.parse_undoes_spelling`).
-/

namespace HttpEngine

open Text

/-! ### Characters of a query -/

/-- The characters of components are characters of queries. -/
theorem Percent.isQueryChar_of_component {c : Char} (h : isUnreserved c = true ∨ c = '%') :
    Reference.isQueryChar c = true := by
  rcases h with h | rfl
  · rcases isUnreserved_iff.1 h with halnum | hmem
    · simp [Reference.isQueryChar, Reference.isHierarchyChar, halnum]
    · simp only [List.mem_cons, List.not_mem_nil, or_false] at hmem
      rcases hmem with rfl | rfl | rfl | rfl <;> decide
  · decide

theorem Reference.ofPathAndQuery_of_query {path query : List Char} (hne : path ≠ [])
    (hpath : ∀ c ∈ path, isPathChar c = true ∧ c ≠ '?' ∧ c ≠ '#')
    (hquery : ∀ c ∈ query, isQueryChar c = true ∧ c ≠ '#') :
    ofPathAndQuery (path ++ '?' :: query) = .ok ⟨path, some query⟩ := by
  have hends : ∀ c ∈ path, (c != '?' && c != '#') = true := fun c hc => by simp [hpath c hc]
  have htake : (path ++ '?' :: query).takeWhile (fun c => c != '?' && c != '#') = path := by
    rw [List.takeWhile_append_of_pos hends, List.takeWhile_cons_of_neg (by simp), List.append_nil]
  have hdrop : (path ++ '?' :: query).dropWhile (fun c => c != '?' && c != '#') = '?' :: query := by
    rw [List.dropWhile_append_of_pos hends, List.dropWhile_cons_of_neg (by simp)]
  have hchars : path.all isPathChar = true := List.all_eq_true.2 fun c hc => (hpath c hc).1
  have hwhole : query.takeWhile (· != '#') = query :=
    List.takeWhile_eq_self_iff.2 fun c hc => by simp [hquery c hc]
  have hquerychars : query.all isQueryChar = true := List.all_eq_true.2 fun c hc => (hquery c hc).1
  rw [ofPathAndQuery, htake, hdrop]
  simp [hchars, hne, hwhole, hquerychars]

namespace Target

/-! ### Parameters -/

/-- A parameter whose key and value are spelt in the given ways. -/
def spellParam (raw : List Char × List Char) : List Char := raw.1 ++ '=' :: raw.2

/-- The query of parameters that are spelt in the given ways. -/
def spellQuery (raws : List (List Char × List Char)) : List Char :=
  ['&'].intercalate (raws.map spellParam)

/-- That a key and a value are spelt by components. -/
def SpellsParam (raw : List Char × List Char) (param : String × String) : Prop :=
  Percent.SpellsText raw.1 param.1 ∧ Percent.SpellsText raw.2 param.2

variable {raw : List Char × List Char} {raws : List (List Char × List Char)}
  {pair : String × String} {pairs : List (String × String)} {c : Char}

/-- What is in a parameter is the equals sign or in a component. -/
theorem SpellsParam.forall_mem (h : SpellsParam raw pair) :
    ∀ c ∈ spellParam raw, c = '=' ∨ Percent.isUnreserved c = true ∨ c = '%' := by
  intro c hc
  rw [spellParam, List.mem_append, List.mem_cons] at hc
  rcases hc with hkey | rfl | hvalue
  · exact .inr (h.1.forall_mem c hkey)
  · exact .inl rfl
  · exact .inr (h.2.forall_mem c hvalue)

theorem SpellsParam.param_eq (h : SpellsParam raw pair) : param (spellParam raw) = .ok pair := by
  have hequals : '=' ∉ raw.1 := Percent.Spells.not_mem h.1 (by decide) (by decide)
  -- The first equals sign is the one between key and value.
  have hsplit : splitParam (spellParam raw) = raw := by
    rw [splitParam, spellParam, cutAt_append_cons hequals, Option.getD_some]
  rw [param, hsplit, component, component, Percent.Spells.decode_eq h.1,
    Percent.Spells.decode_eq h.2]
  simp only [String.ofList_toList]
  rfl

/-- What is in a query is a separator or in a component. -/
theorem forall_mem_spellQuery (h : List.Forall₂ SpellsParam raws pairs) :
    ∀ c ∈ spellQuery raws, c = '&' ∨ c = '=' ∨ Percent.isUnreserved c = true ∨ c = '%' := by
  intro c hc
  refine (mem_of_mem_intercalate hc).imp_right ?_
  rintro ⟨piece, hpiece, hc⟩
  obtain ⟨raw, hraw, rfl⟩ := List.mem_map.1 hpiece
  obtain ⟨pair, hspells⟩ := exists_of_forall₂_mem h raw hraw
  exact hspells.forall_mem c hc

/-- A query that was joined is split where it was joined, and no parameter is dropped. -/
theorem rawParams_spellQuery (h : List.Forall₂ SpellsParam raws pairs) (hne : raws ≠ []) :
    rawParams (spellQuery raws) = raws.map spellParam := by
  have hampersand : ∀ piece ∈ raws.map spellParam, '&' ∉ piece := by
    intro piece hpiece hmem
    obtain ⟨raw, hraw, rfl⟩ := List.mem_map.1 hpiece
    obtain ⟨pair, hspells⟩ := exists_of_forall₂_mem h raw hraw
    exact absurd (hspells.forall_mem '&' hmem) (by decide)
  -- Even a parameter of two empty texts is not dropped, since it holds the equals sign.
  have hkept : ∀ piece ∈ raws.map spellParam, (!piece.isEmpty) = true := by
    intro piece hpiece
    obtain ⟨raw, -, rfl⟩ := List.mem_map.1 hpiece
    simp [spellParam]
  rw [rawParams, spellQuery, List.splitOn_intercalate '&' hampersand (by simpa using hne)]
  exact List.filter_eq_self.2 hkept

theorem params?_spellQuery (h : List.Forall₂ SpellsParam raws pairs) (hne : raws ≠ []) :
    params? (some (spellQuery raws)) = .ok (TextMap.ofList pairs) := by
  have hread : (raws.map spellParam).mapM param = .ok pairs := by
    rw [List.mapM_map]
    exact mapM_eq_ok (h.imp fun _ _ hspells => hspells.param_eq)
  rw [params?, rawParams_spellQuery h hne, hread]
  rfl

/-! ### Whole targets -/

/-- The query of a target whose parameters are spelt in the given ways, which is none for none. -/
def queryPart : List (List Char × List Char) → Option (List Char)
  | [] => none
  | raws => some (spellQuery raws)

/-- The text of a target whose segments and parameters are spelt in the given ways. -/
def spellingWith (parts : List (List Char)) (raws : List (List Char × List Char)) : String :=
  String.ofList ('/' :: ['/'].intercalate parts ++
    match queryPart raws with
    | none => []
    | some query => '?' :: query)

variable {parts : List (List Char)} {texts : List String}

theorem reference_spellingWith (hparts : List.Forall₂ Percent.SpellsText parts texts)
    (hraws : List.Forall₂ SpellsParam raws pairs)
    (hsize : (spellingWith parts raws).utf8ByteSize ≤ Reference.maxBytes) :
    Reference.parse (spellingWith parts raws) =
      .ok ⟨'/' :: ['/'].intercalate parts, queryPart raws⟩ := by
  have hquery : ∀ c ∈ spellQuery raws, Reference.isQueryChar c = true ∧ c ≠ '#' := by
    intro c hc
    rcases forall_mem_spellQuery hraws c hc with rfl | rfl | hcomponent
    · decide
    · decide
    · refine ⟨Percent.isQueryChar_of_component hcomponent, ?_⟩
      rintro rfl
      exact absurd hcomponent (by decide)
  rw [Reference.parse, if_neg (Nat.not_lt.2 hsize), spellingWith, String.toList_ofList]
  cases raws with
  | nil =>
    simp only [queryPart, List.append_nil]
    exact Reference.ofPathAndQuery_of_path (List.cons_ne_nil _ _) (forall_mem_path hparts)
  | cons raw raws =>
    exact Reference.ofPathAndQuery_of_query (List.cons_ne_nil _ _) (forall_mem_path hparts) hquery

/-- **Targets with a query.** Components that spell texts are parsed to the texts, and parameters
that spell keys and values to the map of them. -/
theorem parse_spellingWith (hparts : List.Forall₂ Percent.SpellsText parts texts)
    (hraws : List.Forall₂ SpellsParam raws pairs) (hne : parts ≠ [[]])
    (hsize : (spellingWith parts raws).utf8ByteSize ≤ Reference.maxBytes) :
    parse (spellingWith parts raws) =
      .ok ⟨spelling parts, texts, (queryPart raws).map String.ofList, TextMap.ofList pairs⟩ := by
  have hparams : params? (queryPart raws) = .ok (TextMap.ofList pairs) := by
    cases hraws with
    | nil => rfl
    | cons hraw hraws => exact params?_spellQuery (.cons hraw hraws) (List.cons_ne_nil _ _)
  rw [parse, reference_spellingWith hparts hraws hsize]
  simp only [ofReference, rawSegments_join (slash_not_mem hparts) hne, mapM_component hparts,
    hparams]
  rfl

/-- **Parsing undoes spelling.** Let a target be put together from the texts of its segments, which
are not a single empty one, and from the keys and values of its parameters. There are components
that spell them, and with whatever components they are spelt, the target is parsed to just these
segments, with the last value of each key. -/
theorem parse_undoes_spelling (texts : List String) (pairs : List (String × String))
    (hne : texts ≠ [""]) :
    (∃ parts raws, List.Forall₂ Percent.SpellsText parts texts ∧
        List.Forall₂ SpellsParam raws pairs) ∧
      ∀ parts raws, List.Forall₂ Percent.SpellsText parts texts →
        List.Forall₂ SpellsParam raws pairs →
        (spellingWith parts raws).utf8ByteSize ≤ Reference.maxBytes →
        ∃ target, parse (spellingWith parts raws) = .ok target ∧ target.segments = texts ∧
          ∀ key, target.params.get? key = TextMap.lastValue pairs key := by
  have hspelt : ∀ text, ∃ raw, Percent.SpellsText raw text := fun _ =>
    Percent.exists_spells _
  have hpair : ∀ pair, ∃ raw, SpellsParam raw pair := by
    intro pair
    obtain ⟨key, hkey⟩ := hspelt pair.1
    obtain ⟨value, hvalue⟩ := hspelt pair.2
    exact ⟨(key, value), hkey, hvalue⟩
  constructor
  · obtain ⟨parts, hparts⟩ := exists_forall₂ hspelt texts
    obtain ⟨raws, hraws⟩ := exists_forall₂ hpair pairs
    exact ⟨parts, raws, hparts, hraws⟩
  · intro parts raws hparts hraws hsize
    have hparts_ne : parts ≠ [[]] := by
      rintro rfl
      exact hne (eq_of_spells_nil hparts)
    exact ⟨_, parse_spellingWith hparts hraws hparts_ne hsize, rfl, TextMap.get?_ofList pairs⟩

/-- Segments and parameters that hold every separator, with empty segments at both ends, a parameter
of two empty texts, and a key that comes twice. -/
theorem parse_separators :
    let texts := ["", "a/b?", "é%", ""]
    let pairs := [("k&=", "1"), ("", ""), ("k&=", "#2")]
    let text := "//%61%2fb%3F/%C3%A9%25/?k%26%3d=1&=&%6B%26%3D=%232"
    texts ≠ [""] ∧ text.utf8ByteSize ≤ Reference.maxBytes ∧
      ∃ target, Target.parse text = .ok target ∧ target.segments = texts ∧
        ∀ key, target.params.get? key = TextMap.lastValue pairs key := by
  intro texts pairs text
  have hne : texts ≠ [""] := by decide
  have hsize : text.utf8ByteSize ≤ Reference.maxBytes := by decide
  have hparts : List.Forall₂ Percent.SpellsText
      [[], "%61%2fb%3F".toList, "%C3%A9%25".toList, []] texts := by
    refine .cons .nil (.cons ?_ (.cons ?_ (.cons .nil .nil)))
    · exact .escape rfl (.escape rfl (.plain rfl (.escape rfl .nil)))
    · exact .escape rfl (.escape rfl (.escape rfl .nil))
  have hraws : List.Forall₂ SpellsParam
      [("k%26%3d".toList, ['1']), ([], []), ("%6B%26%3D".toList, "%232".toList)] pairs := by
    refine .cons ⟨?_, ?_⟩ (.cons ⟨.nil, .nil⟩ (.cons ⟨?_, ?_⟩ .nil))
    · exact .plain rfl (.escape rfl (.escape rfl .nil))
    · exact .plain rfl .nil
    · exact .escape rfl (.escape rfl (.escape rfl .nil))
    · exact .escape rfl (.plain rfl .nil)
  have htext : spellingWith [[], "%61%2fb%3F".toList, "%C3%A9%25".toList, []]
      [("k%26%3d".toList, ['1']), ([], []), ("%6B%26%3D".toList, "%232".toList)] = text := by
    decide
  have hparse := (parse_undoes_spelling texts pairs hne).2 _ _ hparts hraws
  rw [htext] at hparse
  exact ⟨hne, hsize, hparse hsize⟩

end Target

end HttpEngine
