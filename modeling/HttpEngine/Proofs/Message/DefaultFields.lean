import HttpEngine.Message.Response
import HttpEngine.Proofs.Intake.HeadFields
import HttpEngine.Proofs.Text.MapLookup
/-!
# Default fields that were configured

A configuration keeps its default fields by their exact names, in order of names, and a response
takes over those whose names it does not have in any spelling. So of several spellings of one name a
bare response has the one that **comes first in order of names** (`Fields.FirstSpelling`), with the
value that was configured last for just this spelling (`Response.field?_bare_configured`).

Which spelling was configured last does not come into it. The value that was configured last for a
name, in whatever spelling, is the one that a bare response has just if the spelling that comes
first has the same value (`Response.field?_bare_eq_last_iff`). Where it has another, configuring the
field is ignored (`Response.ignores_configured_field`).
-/

namespace HttpEngine

open Head (lastNamed lastNamed_eq_none_iff)
open Text

/-! ### Changes of the default fields -/

namespace Config

/-- A change of the default fields. -/
inductive Change where
  /-- A field is configured. -/
  | field (name value : String)
  /-- All fields are removed. -/
  | clear
  deriving DecidableEq, Repr

/-- A configuration after a change. -/
def change (c : Config) : Change → Config
  | .field name value => c.withDefault name value
  | .clear => c.withoutDefaults

/-- The standard configuration after changes, one after the other. -/
def configured (changes : List Change) : Config := changes.foldl change {}

/-- The default fields that have been configured, oldest first, after one more change. -/
def record (es : List (String × String)) : Change → List (String × String)
  | .field name value => es ++ [(name, value)]
  | .clear => []

/-- The default fields that have been configured since all were last removed, oldest first. The
standard field is the first of them if they never were. -/
def configuredFields (changes : List Change) : List (String × String) :=
  changes.foldl record [("Server", "Kouta")]

/-- A configuration has the fields that have been configured. -/
theorem defaultFields_configured (changes : List Change) :
    (configured changes).defaultFields = TextMap.ofList (configuredFields changes) := by
  induction changes using List.reverseRecOn with
  | nil => rfl
  | append_singleton changes c ih =>
    rw [configured, configuredFields, List.foldl_concat, List.foldl_concat, ← configured,
      ← configuredFields]
    cases c with
    | field name value =>
      rw [change, withDefault, ih, record, TextMap.ofList_append_singleton]
    | clear => rfl

end Config

/-! ### The first spelling of a name -/

namespace Fields

variable {es : List (String × String)} {name spelling value : String}

/-- That a spelling of a name is one of those in a list, and **comes first** in order of names. -/
structure FirstSpelling (es : List (String × String)) (name spelling : String) : Prop where
  listed : ∃ value, (spelling, value) ∈ es
  same : sameFolded spelling name = true
  least : ∀ e ∈ es, sameFolded e.1 name = true → spelling ≤ e.1

theorem FirstSpelling.unique {spelling' : String} (h : FirstSpelling es name spelling)
    (h' : FirstSpelling es name spelling') : spelling = spelling' := by
  obtain ⟨value, hmem⟩ := h.listed
  obtain ⟨value', hmem'⟩ := h'.listed
  exact String.le_antisymm (h.least _ hmem' h'.same) (h'.least _ hmem h.same)

/-- In the map of a list a name is found in its first spelling, with the last value of it. -/
theorem field?_ofList_eq_some_iff :
    field? (TextMap.ofList es) name = some (spelling, value) ↔
      FirstSpelling es name spelling ∧ TextMap.lastValue es spelling = some value := by
  have hsearch : field? (TextMap.ofList es) name =
      (TextMap.ofList es).findKey? fun key => sameFolded key name := rfl
  rw [hsearch, TextMap.findKey?_eq_some_iff, TextMap.mem_toList_iff, TextMap.get?_ofList]
  constructor
  · rintro ⟨hvalue, hsame, hleast⟩
    refine ⟨⟨TextMap.exists_lastValue_iff.1 ⟨value, hvalue⟩, hsame, fun e he hname => ?_⟩, hvalue⟩
    obtain ⟨value', hmem⟩ := TextMap.exists_mem_ofList_iff.2 ⟨e.2, he⟩
    exact hleast (e.1, value') hmem hname
  · rintro ⟨hfirst, hvalue⟩
    refine ⟨hvalue, hfirst.same, fun d hd hname => ?_⟩
    obtain ⟨value', hmem⟩ := TextMap.exists_mem_ofList_iff.1 ⟨d.2, hd⟩
    exact hfirst.least (d.1, value') hmem hname

end Fields

/-! ### Responses with default fields -/

namespace Response

theorem field?_withDefaults (r : Response) (config : Config) (asked : String) :
    (r.withDefaults config).fields.field? asked =
      (r.fields.field? asked).or (config.defaultFields.field? asked) :=
  Fields.field?_foldl_setDefault _ r.fields asked

theorem distinct_withDefaults {r : Response} (h : r.fields.Distinct) (config : Config) :
    (r.withDefaults config).fields.Distinct :=
  Fields.distinct_foldl_setDefault h config.defaultFields.toList

/-- Default fields with distinct names are added to the fields that a response has. -/
theorem mem_withDefaults_iff {r : Response} {config : Config}
    (h : config.defaultFields.Distinct) {e : String × String} :
    e ∈ (r.withDefaults config).fields.toList ↔
      e ∈ r.fields.toList ∨ e ∈ config.defaultFields.toList ∧ r.fields.field? e.1 = none :=
  Fields.mem_foldl_setDefault_iff h

/-- A bare response has the default fields. -/
theorem field?_bare (status : Status) (config : Config) (request : Request) (asked : String) :
    (bare status config request).fields.field? asked = config.defaultFields.field? asked :=
  (field?_withDefaults _ config asked).trans Option.none_or

theorem field?_bare_configured (changes : List Config.Change) (status : Status)
    (request : Request) (asked : String) :
    (bare status (Config.configured changes) request).fields.field? asked =
      Fields.field? (TextMap.ofList (Config.configuredFields changes)) asked := by
  rw [field?_bare, Config.defaultFields_configured]

/-- **Which default field a response has.** However the default fields have been configured and
removed, a bare response has the first spelling of a name with the last value of this spelling. It
is the value that was configured last for the name, in whatever spelling, just if the first spelling
of the name, where there is one, has that value. -/
theorem field?_bare_eq_last_iff (changes : List Config.Change) (status : Status)
    (request : Request) (name : String) :
    let es := Config.configuredFields changes
    let r := bare status (Config.configured changes) request
    (∀ spelling value, r.fields.field? name = some (spelling, value) ↔
        Fields.FirstSpelling es name spelling ∧ TextMap.lastValue es spelling = some value) ∧
      (r.field? name = (lastNamed es name).map (·.2) ↔
        ∀ spelling, Fields.FirstSpelling es name spelling →
          TextMap.lastValue es spelling = (lastNamed es name).map (·.2)) := by
  intro es r
  have hfield : r.field? name = (Fields.field? (TextMap.ofList es) name).map (·.2) := by
    rw [← field?_bare_configured changes status request]
    rfl
  refine ⟨fun spelling value => ?_, ?_⟩
  · rw [field?_bare_configured, Fields.field?_ofList_eq_some_iff]
  rw [hfield]
  cases hfound : Fields.field? (TextMap.ofList es) name with
  | none =>
    -- No spelling of the name was configured: nothing is found, and nothing comes first.
    have hother := Fields.field?_ofList_eq_none_iff.1 hfound
    rw [lastNamed_eq_none_iff.2 hother]
    refine iff_of_true rfl fun spelling hfirst => ?_
    obtain ⟨value, hmem⟩ := hfirst.listed
    exact absurd hfirst.same (by simp [hother _ hmem])
  | some e =>
    -- What is found is the value of the spelling that comes first, and there is one such spelling.
    obtain ⟨hfirst, hvalue⟩ := Fields.field?_ofList_eq_some_iff.1 hfound
    rw [Option.map_some, ← hvalue]
    constructor
    · rintro heq spelling hspelling
      rw [hspelling.unique hfirst, heq]
    · exact fun h => h e.1 hfirst

/-- A field that is configured in lower case is ignored: the standard field of its name stands in
front of it. -/
theorem ignores_configured_field :
    let changes : List Config.Change := [.field "server" "Mine"]
    let request : Request := { method := .get, target := "/", version := .http11, fields := ∅ }
    let r := bare .ok (Config.configured changes) request
    lastNamed (Config.configuredFields changes) "Server" = some ("server", "Mine") ∧
      r.field? "Server" = some "Kouta" ∧ r.field? "server" = some "Kouta" := by
  decide

end Response

end HttpEngine
