import HttpEngine.Proofs.Routing.Resolution
import HttpEngine.Proofs.Target.Spelling
/-!
# Addresses of routes

An **address** of a path is a target made for it: its parameters are given values that are not
empty, its literals are replaced by what they spell, and each of the texts is spelt behind a slash
with everything but unreserved characters escaped (`Address`). The values may hold anything, slashes
and percent signs included, since a target is split before it is decoded.

Where no earlier route takes it, the address of a route leads back to the route and to the values
(`RouteTable.resolve_address`).
-/

namespace HttpEngine

open Text

namespace Template

/-- That a text fills a segment of a path under some values of its parameters. -/
inductive Fills (params : TextMap) (part text : String) : Prop
  /-- A parameter is filled by its value. -/
  | param (name : String) (hparam : IsParam part name) (hvalue : params.get? name = some text)
      (hne : text ≠ "")
  /-- A literal is filled by what it spells. -/
  | literal (hliteral : ∀ name, ¬ IsParam part name) (htext : textOf part = text)

variable {params : TextMap} {part text name : String} {parts segments : List String}

namespace Fills

theorem admits (h : Fills params part text) : Admits part text := by
  cases h with
  | param name hparam _ hne => exact .param name hparam hne
  | literal hliteral htext => exact (admits_of_literal hliteral).2 htext

theorem get?_eq (h : Fills params part text) (hparam : IsParam part name) :
    params.get? name = some text := by
  cases h with
  | param name' hparam' hvalue _ => rwa [hparam.unique hparam']
  | literal hliteral _ => exact absurd hparam (hliteral name)

/-- The empty text fills only what is empty itself. -/
theorem eq_empty (h : Fills params part "") : part = "" := by
  cases h with
  | param _ _ _ hne => exact absurd rfl hne
  | literal _ htext =>
    rw [textOf] at htext
    split at htext
    · next decoded hdecode =>
      obtain rfl : decoded = [] := by simpa using htext
      exact String.toList_eq_nil_iff.1 (Percent.eq_nil_of_decode hdecode)
    · exact htext

end Fills

/-- Values that fill the segments of a path are what these bind. -/
theorem bindsParts_of_fills (h : List.Forall₂ (Fills params) parts segments)
    (hnamed : ∀ name, (params.get? name).isSome → ∃ part ∈ parts, IsParam part name) :
    BindsParts parts segments params := by
  obtain ⟨hlength, hfills⟩ := List.forall₂_iff_get.1 h
  have hvalue : ∀ name i, LastAt parts name i → params.get? name = segments[i]? := by
    intro name i hlast
    obtain ⟨part, hpart, hparam⟩ := hlast.isParam
    obtain ⟨hi, rfl⟩ := List.getElem?_eq_some_iff.1 hpart
    rw [List.getElem?_eq_getElem (hlength ▸ hi)]
    exact (hfills i hi (hlength ▸ hi)).get?_eq hparam
  intro name value
  constructor
  · intro hget
    obtain ⟨part, hmem, hparam⟩ := hnamed name (by simp [hget])
    obtain ⟨i, hlast⟩ := exists_lastAt hmem hparam
    exact ⟨i, hlast, hvalue name i hlast ▸ hget⟩
  · rintro ⟨i, hlast, hsegment⟩
    rw [hvalue name i hlast, hsegment]

end Template

/-- A target that is made for a path. -/
structure Address (path : String) where
  /-- The values of the parameters, one for each name. -/
  params : TextMap
  /-- The texts of the segments. -/
  segments : List String
  /-- The segments as they are spelt. -/
  spelling : List (List Char)
  /-- Nothing but the parameters has a value. -/
  named : ∀ name, (params.get? name).isSome →
    ∃ part ∈ pathSegments path, Template.IsParam part name
  fills : List.Forall₂ (Template.Fills params) (pathSegments path) segments
  spells : List.Forall₂ Percent.SpellsText spelling segments
  size_le : (Target.spelling spelling).utf8ByteSize ≤ Reference.maxBytes

namespace Address

variable {path : String} (a : Address path)

/-- The text of the target. -/
def target : String := Target.spelling a.spelling

theorem matches_segments : Template.Matches path a.segments :=
  a.fills.imp fun _ _ h => h.admits

theorem binds_params : Template.Binds path a.segments a.params :=
  Template.bindsParts_of_fills a.fills a.named

/-- An address is no list of a single empty segment, since no path is. -/
theorem spelling_ne : a.spelling ≠ [[]] := by
  intro hspelling
  have hspells := a.spells
  rw [hspelling] at hspells
  have hsegments := Target.eq_of_spells_nil hspells
  have hfills := a.fills
  rw [hsegments, List.forall₂_cons_right_iff] at hfills
  obtain ⟨part, rest, hfill, hrest, hparts⟩ := hfills
  obtain rfl := List.forall₂_nil_right_iff.1 hrest
  rw [hfill.eq_empty, pathSegments, List.map_eq_singleton_iff] at hparts
  obtain ⟨raw, hraw, hempty⟩ := hparts
  obtain rfl : raw = [] := by simpa using hempty
  exact rawSegments_ne path.toList hraw

theorem parse_target : Target.parse a.target = .ok ⟨a.target, a.segments, none, ∅⟩ :=
  Target.parse_spelling a.spells a.spelling_ne a.size_le

end Address

namespace RouteTable

variable {γ : Type} (t : RouteTable γ) (route : Route γ) {before after : List (Route γ)}

/-- **Addresses lead back.** Where no earlier route with its method matches, an address of a route
is a target that is resolved to the route, with the values that the address was made from. -/
theorem resolve_address (a : Address route.path) (ht : t.routes = before ++ route :: after)
    (hbefore : ∀ r ∈ before, ¬ r.Fits a.segments route.method) :
    ∃ target, Target.parse a.target = .ok target ∧
      t.resolve target.segments route.method = .found route a.params := by
  refine ⟨_, a.parse_target, resolveFrom_eq_found_iff.2 ⟨?_, a.binds_params⟩⟩
  exact ⟨before, after, ht, ⟨rfl, a.matches_segments⟩, hbefore⟩

/-- An address with every kind of segment: the value holds a slash, a percent sign and a character
beyond ASCII, one literal is spelt otherwise than in the path, and the last segment is empty. -/
def oddAddress : Address "/a%2Fb/:name/:/" where
  params := .ofList [("name", "/%é")]
  segments := ["a/b", "/%é", ":", ""]
  spelling := ["%61%2fb".toList, "%2F%25%C3%A9".toList, "%3A".toList, []]
  named name h := by
    by_cases hname : name = "name"
    · exact ⟨":name", by decide, by subst hname; decide, by rw [hname]; rfl⟩
    · simp [TextMap.ofList, TextMap.get?_insert_of_ne hname] at h
  fills := by
    have hliteral : ∀ part, Template.paramName? part = none →
        ∀ name, ¬ Template.IsParam part name := fun _ => Template.paramName?_eq_none_iff.1
    refine .cons (.literal (hliteral _ (by decide)) (by decide)) (.cons ?_
      (.cons (.literal (hliteral _ (by decide)) (by decide))
        (.cons (.literal (hliteral _ (by decide)) (by decide)) .nil)))
    exact .param "name" ⟨by decide, rfl⟩ (by decide) (by decide)
  spells := by
    refine .cons ?_ (.cons ?_ (.cons ?_ (.cons ?_ .nil)))
    · exact .escape rfl (.escape rfl (.plain rfl .nil))
    · exact .escape rfl (.escape rfl (.escape rfl (.escape rfl .nil)))
    · exact .escape rfl .nil
    · exact .nil
  size_le := by decide

/-- A route that answers every request it is found for. -/
def plainRoute (path : String) (method : Method) : Route Nat :=
  ⟨path, method, { handler := fun _ n => (.ok (Response.ofStatus .ok), n + 1) }⟩

/-- Of the two routes in front, one does not match and the other has another method. -/
theorem resolve_oddAddress :
    (∀ r ∈ [plainRoute "/:name/b/:/" .get, plainRoute "/a%2Fb/:name/:/" .post],
        ¬ r.Fits oddAddress.segments .get) ∧
      ∃ target, Target.parse "/%61%2fb/%2F%25%C3%A9/%3A/" = .ok target ∧
        resolve ⟨[plainRoute "/:name/b/:/" .get, plainRoute "/a%2Fb/:name/:/" .post,
            plainRoute "/a%2Fb/:name/:/" .get], true⟩ target.segments .get =
          .found (plainRoute "/a%2Fb/:name/:/" .get) (.ofList [("name", "/%é")]) := by
  have hbefore : ∀ r ∈ [plainRoute "/:name/b/:/" .get, plainRoute "/a%2Fb/:name/:/" .post],
      ¬ r.Fits oddAddress.segments .get := by
    refine List.forall_mem_cons.2 ⟨fun h => ?_, List.forall_mem_singleton.2 fun h => ?_⟩
    · exact Route.bind_eq_none_iff.1 (by decide) h.2
    · exact absurd h.1 (by decide)
  exact ⟨hbefore, resolve_address _ (plainRoute "/a%2Fb/:name/:/" .get) oddAddress rfl hbefore⟩

end RouteTable

end HttpEngine
