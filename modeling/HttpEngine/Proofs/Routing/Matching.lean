import HttpEngine.Proofs.Text.MapLookup
import HttpEngine.Routing.Table
import Mathlib.Data.List.Forall2
/-!
# Matching position by position

What a path admits is said here on its text (`Template.Matches`): it has as many segments as the
request, a segment `:name` admits every segment but the empty one, and any other segment admits what
it spells, percent-decoded if it can be. What it binds is said by positions (`Template.Binds`): each
name has the segment at its last position.

A template finds the same in its two passes over positions (`Template.bind_ofPath_eq_some_iff`).
Templates grow at their end and so do the lists of positions in them, which is where the inductions
go: behind a segment that is added, the earlier positions still lead to the segments they led to.
-/

namespace HttpEngine

namespace Template

/-! ### What a path says -/

/-- A segment of a path is the parameter `name` if it is a colon with the name behind it. -/
def IsParam (part name : String) : Prop := name ≠ "" ∧ part = ":" ++ name

/-- That a segment of a path admits a segment of a request. -/
inductive Admits (part segment : String) : Prop
  /-- A parameter admits what is not empty. -/
  | param (name : String) (hparam : IsParam part name) (hne : segment ≠ "")
  /-- A literal admits what it spells. -/
  | decoded (hliteral : ∀ name, ¬ IsParam part name)
      (htext : Percent.decode part.toList = .ok segment.toList)
  /-- A literal that cannot be decoded admits itself. -/
  | verbatim (hliteral : ∀ name, ¬ IsParam part name) (cause : PercentError)
      (herror : Percent.decode part.toList = .error cause) (hsame : segment = part)

/-- That a path matches the segments of a request. -/
def Matches (path : String) (segments : List String) : Prop :=
  List.Forall₂ Admits (pathSegments path) segments

/-- That the last of some segments to be the parameter `name` is at position `i`. -/
structure LastAt (parts : List String) (name : String) (i : Nat) : Prop where
  isParam : ∃ part, parts[i]? = some part ∧ IsParam part name
  isLast : ∀ j part, i < j → parts[j]? = some part → ¬ IsParam part name

/-- That each parameter of some segments, and nothing else, has the segment of a request at its last
position. -/
def BindsParts (parts segments : List String) (params : TextMap) : Prop :=
  ∀ name value, params.get? name = some value ↔
    ∃ i, LastAt parts name i ∧ segments[i]? = some value

/-- That the parameters of a path, and nothing else, are bound to the segments of a request at their
last positions. -/
def Binds (path : String) (segments : List String) (params : TextMap) : Prop :=
  BindsParts (pathSegments path) segments params

variable {t : Template} {texts parts segments : List String} {part segment text name : String}
  {params : TextMap} {i : Nat}

/-- What is bound is determined. -/
theorem BindsParts.unique {params' : TextMap} (h : BindsParts parts segments params)
    (h' : BindsParts parts segments params') : params = params' :=
  TextMap.ext_get? fun name => Option.ext fun value => (h name value).trans (h' name value).symm

/-! ### Segments of a path -/

theorem paramName?_eq_some_iff : paramName? part = some name ↔ IsParam part name := by
  have hcolon : (":" ++ name).toList = ':' :: name.toList := by simp
  rw [paramName?, IsParam, ← String.toList_inj, hcolon]
  split
  · next c rest hpart =>
    rw [hpart, Option.some.injEq, ← String.toList_inj, String.toList_ofList, List.cons.injEq]
    constructor
    · rintro hname
      refine ⟨?_, rfl, hname⟩
      rintro rfl
      simp at hname
    · rintro ⟨-, -, hname⟩
      exact hname
  · next hpart =>
    refine iff_of_false (by simp) ?_
    rintro ⟨hne, heq⟩
    cases hname : name.toList with
    | nil => exact hne (String.toList_eq_nil_iff.1 hname)
    | cons c rest => exact hpart c rest (heq.trans (by rw [hname]))

theorem paramName?_eq_none_iff : paramName? part = none ↔ ∀ name, ¬ IsParam part name := by
  simp only [Option.eq_none_iff_forall_ne_some, ne_eq, paramName?_eq_some_iff]

/-- The name of a parameter is determined. -/
theorem IsParam.unique {name' : String} (h : IsParam part name) (h' : IsParam part name') :
    name = name' := by
  rw [← paramName?_eq_some_iff] at h h'
  exact Option.some.inj (h.symm.trans h')

theorem admits_of_isParam (h : IsParam part name) : Admits part segment ↔ segment ≠ "" := by
  refine ⟨?_, .param name h⟩
  rintro (⟨-, -, hne⟩ | ⟨hliteral, -⟩ | ⟨hliteral, -, -, -⟩)
  · exact hne
  · exact absurd h (hliteral name)
  · exact absurd h (hliteral name)

theorem admits_of_literal (h : ∀ name, ¬ IsParam part name) :
    Admits part segment ↔ textOf part = segment := by
  rw [textOf]
  constructor
  · rintro (⟨name, hparam, -⟩ | ⟨-, htext⟩ | ⟨-, cause, herror, rfl⟩)
    · exact absurd hparam (h name)
    · rw [htext]
      exact String.ofList_toList
    · rw [herror]
  · split
    · next decoded htext =>
      rintro rfl
      exact .decoded h (htext.trans (by rw [String.toList_ofList]))
    · next cause herror =>
      rintro rfl
      exact .verbatim h cause herror rfl

/-! ### One more segment -/

theorem agreeAt?_append_singleton {positions : List Nat} :
    agreeAt? texts segments (positions ++ [i]) = some true ↔
      agreeAt? texts segments positions = some true ∧
        ∃ text, texts[i]? = some text ∧ segments[i]? = some text := by
  induction positions with
  | nil =>
    simp only [List.nil_append, agreeAt?, true_and]
    cases texts[i]? with
    | none => simp
    | some text =>
      cases segments[i]? with
      | none => simp
      | some segment => simp [eq_comm]
  | cons j positions ih =>
    simp only [List.cons_append, agreeAt?]
    split
    · split_ifs
      · exact ih
      · simp
    · simp

theorem agreeAt?_concat {positions : List Nat} (ht : ∀ j ∈ positions, j < texts.length)
    (hs : ∀ j ∈ positions, j < segments.length) :
    agreeAt? (texts ++ [text]) (segments ++ [segment]) positions =
      agreeAt? texts segments positions := by
  induction positions with
  | nil => rfl
  | cons j positions ih =>
    obtain ⟨htj, ht⟩ := List.forall_mem_cons.1 ht
    obtain ⟨hsj, hs⟩ := List.forall_mem_cons.1 hs
    simp only [agreeAt?, List.getElem?_append_left htj, List.getElem?_append_left hsj, ih ht hs]

theorem bindFrom?_append_singleton {bound : TextMap} {ps : List TemplateParam}
    {p : TemplateParam} :
    bindFrom? segments bound (ps ++ [p]) = some (some params) ↔
      ∃ earlier, bindFrom? segments bound ps = some (some earlier) ∧
        ∃ value, segments[p.position]? = some value ∧ value ≠ "" ∧
          params = earlier.insert p.name value := by
  induction ps generalizing bound with
  | nil =>
    simp only [List.nil_append, bindFrom?, Option.some.injEq, exists_eq_left']
    cases segments[p.position]? with
    | none => simp
    | some value =>
      by_cases hempty : value = ""
      · simp [hempty]
      · simp only [String.isEmpty_iff, hempty, if_false, Option.some.injEq, exists_eq_left', ne_eq,
          not_false_eq_true, true_and]
        exact eq_comm
  | cons q ps ih =>
    simp only [List.cons_append, bindFrom?]
    split
    · split_ifs
      · simp
      · exact ih
    · simp

theorem bindFrom?_concat {bound : TextMap} {ps : List TemplateParam}
    (h : ∀ p ∈ ps, p.position < segments.length) :
    bindFrom? (segments ++ [segment]) bound ps = bindFrom? segments bound ps := by
  induction ps generalizing bound with
  | nil => rfl
  | cons p ps ih =>
    obtain ⟨hp, hps⟩ := List.forall_mem_cons.1 h
    simp only [bindFrom?, List.getElem?_append_left hp, ih hps]

/-- A template matches if it has as many segments as the request and both passes succeed. -/
theorem bind_eq_some_iff : t.bind segments = some params ↔
    t.texts.length = segments.length ∧ agreeAt? t.texts segments t.literals = some true ∧
      bindFrom? segments ∅ t.params = some (some params) := by
  rw [← Option.some_inj, ← bind?_eq, bind?]
  split_ifs with hlength
  · rw [and_iff_right hlength]
    split
    · next hagree => simp [hagree]
    · next hagree => simp [hagree]
    · next hagree => simp [hagree]
  · exact iff_of_false (by simp) fun h => hlength h.1

theorem bind_pushLiteral : (t.pushLiteral text).bind (segments ++ [segment]) = some params ↔
    t.bind segments = some params ∧ text = segment := by
  rw [bind_eq_some_iff, bind_eq_some_iff]
  simp only [pushLiteral, List.length_append, List.length_singleton, Nat.add_right_cancel_iff,
    agreeAt?_append_singleton, and_assoc]
  refine and_congr_right fun hlength => ?_
  rw [agreeAt?_concat t.literals_lt (hlength ▸ t.literals_lt),
    bindFrom?_concat (hlength ▸ t.params_lt), List.getElem?_concat_length, hlength,
    List.getElem?_concat_length]
  refine and_congr_right fun _ => ?_
  simp [and_comm, eq_comm]

theorem bind_pushParam : (t.pushParam text name).bind (segments ++ [segment]) = some params ↔
    ∃ earlier, t.bind segments = some earlier ∧ segment ≠ "" ∧
      params = earlier.insert name segment := by
  simp only [bind_eq_some_iff, pushParam, List.length_append, List.length_singleton,
    Nat.add_right_cancel_iff, bindFrom?_append_singleton, exists_and_left, and_assoc]
  refine and_congr_right fun hlength => ?_
  rw [agreeAt?_concat t.literals_lt (hlength ▸ t.literals_lt),
    bindFrom?_concat (hlength ▸ t.params_lt), hlength, List.getElem?_concat_length]
  simp

theorem ofParts_append_singleton : ofParts (parts ++ [part]) = (ofParts parts).push part := by
  rw [ofParts, List.foldl_append, ← ofParts, List.foldl_cons, List.foldl_nil]

theorem length_texts_push : (t.push part).texts.length = t.texts.length + 1 := by
  rw [push]
  split
  · exact List.length_append
  · exact List.length_append

theorem length_texts_ofParts (parts : List String) :
    (ofParts parts).texts.length = parts.length := by
  induction parts using List.reverseRecOn with
  | nil => rfl
  | append_singleton parts part ih =>
    rw [ofParts_append_singleton, length_texts_push, ih, List.length_append, List.length_singleton]

theorem length_eq_of_bind_ofParts (h : (ofParts parts).bind segments = some params) :
    parts.length = segments.length := by
  rw [← length_texts_ofParts]
  exact (bind_eq_some_iff.1 h).1

/-- Behind a segment that is added, a template matches one more segment, which that one admits. -/
theorem bind_push : (t.push part).bind (segments ++ [segment]) = some params ↔
    ∃ earlier, t.bind segments = some earlier ∧ Admits part segment ∧
      params = match paramName? part with
        | some name => earlier.insert name segment
        | none => earlier := by
  rw [push]
  cases hname : paramName? part with
  | some name =>
    rw [bind_pushParam, admits_of_isParam (paramName?_eq_some_iff.1 hname)]
  | none =>
    rw [bind_pushLiteral, admits_of_literal (paramName?_eq_none_iff.1 hname)]
    constructor
    · rintro ⟨hbind, htext⟩
      exact ⟨params, hbind, htext, rfl⟩
    · rintro ⟨earlier, hbind, htext, rfl⟩
      exact ⟨hbind, htext⟩

/-! ### Positions -/

theorem LastAt.lt_length (h : LastAt parts name i) : i < parts.length := by
  obtain ⟨part, hpart, -⟩ := h.isParam
  exact (List.getElem?_eq_some_iff.1 hpart).1

/-- A parameter that is added is the last of its name. -/
theorem lastAt_append_of_isParam (h : IsParam part name) :
    LastAt (parts ++ [part]) name i ↔ i = parts.length := by
  constructor
  · rintro hlast
    have hlt := hlast.lt_length
    rw [List.length_append, List.length_singleton] at hlt
    refine Nat.le_antisymm (Nat.le_of_lt_succ hlt) (Nat.le_of_not_lt fun hearlier => ?_)
    exact hlast.isLast _ part hearlier List.getElem?_concat_length h
  · rintro rfl
    refine ⟨⟨part, List.getElem?_concat_length, h⟩, fun j part' hj hpart' => ?_⟩
    have hlt := (List.getElem?_eq_some_iff.1 hpart').1
    rw [List.length_append, List.length_singleton] at hlt
    omega

/-- A segment that is added leaves the last positions of other names where they are. -/
theorem lastAt_append_of_not_isParam (h : ¬ IsParam part name) :
    LastAt (parts ++ [part]) name i ↔ LastAt parts name i := by
  constructor
  · rintro ⟨⟨part', hpart', hparam⟩, hlast⟩
    have hlt : i < parts.length := by
      have hle := (List.getElem?_eq_some_iff.1 hpart').1
      rw [List.length_append, List.length_singleton] at hle
      refine Nat.lt_of_le_of_ne (Nat.le_of_lt_succ hle) ?_
      rintro rfl
      rw [List.getElem?_concat_length] at hpart'
      exact h (Option.some.inj hpart' ▸ hparam)
    rw [List.getElem?_append_left hlt] at hpart'
    refine ⟨⟨part', hpart', hparam⟩, fun j part'' hj hpart'' => hlast j part'' hj ?_⟩
    rw [List.getElem?_append_left (List.getElem?_eq_some_iff.1 hpart'').1, hpart'']
  · intro hlast
    obtain ⟨part', hpart', hparam⟩ := hlast.isParam
    refine ⟨⟨part', ?_, hparam⟩, fun j part'' hj hpart'' => ?_⟩
    · rw [List.getElem?_append_left hlast.lt_length, hpart']
    · rcases Nat.lt_or_ge j parts.length with hlt | hge
      · rw [List.getElem?_append_left hlt] at hpart''
        exact hlast.isLast j part'' hj hpart''
      · rw [List.getElem?_append_right hge, List.getElem?_singleton] at hpart''
        split_ifs at hpart''
        exact Option.some.inj hpart'' ▸ h

/-- What occurs has a last position. -/
theorem exists_lastAt (hmem : part ∈ parts) (h : IsParam part name) :
    ∃ i, LastAt parts name i := by
  induction parts using List.reverseRecOn with
  | nil => simp at hmem
  | append_singleton parts last ih =>
    by_cases hlast : IsParam last name
    · exact ⟨parts.length, (lastAt_append_of_isParam hlast).2 rfl⟩
    · have hearlier : part ∈ parts := by
        rcases List.mem_append.1 hmem with hmem | hmem
        · exact hmem
        · exact absurd (List.mem_singleton.1 hmem ▸ h) hlast
      obtain ⟨i, hi⟩ := ih hearlier
      exact ⟨i, (lastAt_append_of_not_isParam hlast).2 hi⟩

/-- One more segment is bound if it is a parameter, whatever its name was bound to. -/
theorem BindsParts.append_singleton (h : BindsParts parts segments params)
    (hlength : parts.length = segments.length) :
    BindsParts (parts ++ [part]) (segments ++ [segment])
      (match paramName? part with
        | some name => params.insert name segment
        | none => params) := by
  have hother : ∀ name value, ¬ IsParam part name → (params.get? name = some value ↔
      ∃ i, LastAt (parts ++ [part]) name i ∧ (segments ++ [segment])[i]? = some value) := by
    intro name value hne
    rw [h name value]
    refine exists_congr fun i => ?_
    rw [lastAt_append_of_not_isParam hne]
    refine and_congr_right fun hlast => ?_
    rw [List.getElem?_append_left (hlength ▸ hlast.lt_length)]
  cases hpart : paramName? part with
  | none => exact fun name value => hother name value (paramName?_eq_none_iff.1 hpart name)
  | some added =>
    have hadded := paramName?_eq_some_iff.1 hpart
    intro name value
    by_cases hname : name = added
    · subst hname
      simp only [TextMap.get?_insert_self, lastAt_append_of_isParam hadded, exists_eq_left, hlength,
        List.getElem?_concat_length]
    · have hne : ¬ IsParam part name := fun hparam => hname (hparam.unique hadded)
      rw [TextMap.get?_insert_of_ne hname]
      exact hother name value hne

/-! ### All segments -/

theorem forall₂_append_singleton_iff : List.Forall₂ Admits (parts ++ [part])
    (segments ++ [segment]) ↔ List.Forall₂ Admits parts segments ∧ Admits part segment := by
  rw [← List.forall₂_reverse_iff, List.reverse_append, List.reverse_append,
    List.reverse_singleton, List.reverse_singleton, List.singleton_append, List.singleton_append,
    List.forall₂_cons, List.forall₂_reverse_iff, and_comm]

/-- A template of segments matches just what each of them admits. -/
theorem bind_ofParts_isSome_iff :
    ((ofParts parts).bind segments).isSome ↔ List.Forall₂ Admits parts segments := by
  induction parts using List.reverseRecOn generalizing segments with
  | nil =>
    cases segments with
    | nil => exact iff_of_true rfl .nil
    | cons segment segments => exact iff_of_false Bool.false_ne_true nofun
  | append_singleton parts part ih =>
    rcases List.eq_nil_or_concat' segments with rfl | ⟨segments, segment, rfl⟩
    · refine iff_of_false (fun h => ?_) (fun h => by simpa using h.length_eq)
      obtain ⟨params, hbind⟩ := Option.isSome_iff_exists.1 h
      simpa using length_eq_of_bind_ofParts hbind
    · rw [forall₂_append_singleton_iff, ← ih, ofParts_append_singleton]
      simp only [Option.isSome_iff_exists, bind_push]
      constructor
      · rintro ⟨-, earlier, hbind, hadmits, -⟩
        exact ⟨⟨earlier, hbind⟩, hadmits⟩
      · rintro ⟨⟨earlier, hbind⟩, hadmits⟩
        exact ⟨_, earlier, hbind, hadmits, rfl⟩

/-- A template of segments that matches binds their parameters. -/
theorem bindsParts_of_bind_ofParts (h : (ofParts parts).bind segments = some params) :
    BindsParts parts segments params := by
  induction parts using List.reverseRecOn generalizing segments params with
  | nil =>
    obtain ⟨-, -, hbind⟩ := bind_eq_some_iff.1 h
    obtain rfl : ∅ = params := Option.some.inj (Option.some.inj hbind)
    refine fun name value => iff_of_false (by simp) ?_
    rintro ⟨i, hlast, -⟩
    exact absurd hlast.lt_length (Nat.not_lt_zero i)
  | append_singleton parts part ih =>
    have hlength := length_eq_of_bind_ofParts h
    rw [List.length_append, List.length_singleton] at hlength
    rcases List.eq_nil_or_concat' segments with rfl | ⟨segments, segment, rfl⟩
    · simp at hlength
    · rw [List.length_append, List.length_singleton, Nat.add_right_cancel_iff] at hlength
      rw [ofParts_append_singleton, bind_push] at h
      obtain ⟨earlier, hbind, -, rfl⟩ := h
      exact (ih hbind).append_singleton hlength

/-- **Matching.** The template of a path matches what the path matches, and binds what the path
binds. -/
theorem bind_ofPath_eq_some_iff {path : String} :
    (ofPath path).bind segments = some params ↔
      Matches path segments ∧ Binds path segments params := by
  constructor
  · intro h
    exact ⟨bind_ofParts_isSome_iff.1 (h ▸ rfl), bindsParts_of_bind_ofParts h⟩
  · rintro ⟨hmatches, hbinds⟩
    obtain ⟨params', h⟩ := Option.isSome_iff_exists.1 (bind_ofParts_isSome_iff.2 hmatches)
    rw [hbinds.unique (bindsParts_of_bind_ofParts h)]
    exact h

/-- The later of two parameters of one name is bound, and a lone colon is a literal. -/
example : (ofPath "/:a/%41/:/:a").bind ["x", "A", ":", "y"] = some (.ofList [("a", "y")]) := by
  decide

end Template

end HttpEngine
