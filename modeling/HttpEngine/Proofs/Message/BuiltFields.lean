import HttpEngine.Proofs.Intake.HeadFields
import HttpEngine.Proofs.Message.Reframed
/-!
# The fields of responses as they are built

A response is built in steps: fields, a media type and a body are set, default fields are added, it
takes over what the request asks for, and it is framed. What a step does to the fields comes down to
two kinds of **changes**, a field that is set and default fields that are added
(`Response.fields_build`). So a response has the fields that the log of its changes leaves
(`Response.fields_run`), and what a log leaves can be read off it: of a name, what was set last, in
whatever spelling, and if it was never set, the default of the first default fields that have it
(`Fields.field?_after`).

However a response is built, its fields are therefore a map up to case (`Response.fieldMap_run`).
The map underneath compares names exactly, and each change keeps the names distinct in its own way:
setting a field drops every spelling of its name, and a default field is only added under a name
that there is none of.
-/

namespace HttpEngine

open Head (lastNamed lastNamed_append_singleton)
open Text

/-! ### Changes of fields -/

/-- A change of the fields of a response. -/
inductive FieldChange where
  /-- A field is set, in place of every spelling of its name. -/
  | set (field : String × String)
  /-- Fields are added under the names that there are none of. -/
  | defaults (fields : Fields)

namespace FieldChange

/-- The field that is set. -/
def field? : FieldChange → Option (String × String)
  | .set field => some field
  | .defaults _ => none

/-- The default field of a name. -/
def default? (asked : String) : FieldChange → Option (String × String)
  | .set _ => none
  | .defaults fields => fields.field? asked

/-- That a change is about a name. -/
def Concerns (asked : String) : FieldChange → Prop
  | .set field => sameFolded field.1 asked = true
  | .defaults fields => fields.field? asked ≠ none

end FieldChange

namespace Fields

variable {fs : Fields} {asked : String} {c : FieldChange} {log : List FieldChange}

/-- Fields after a change. -/
def change (fs : Fields) : FieldChange → Fields
  | .set field => fs.set field.1 field.2
  | .defaults fields => fields.toList.foldl (fun fs field => setDefault fs field.1 field.2) fs

/-- Fields after changes, one after the other. -/
def after (fs : Fields) (log : List FieldChange) : Fields := log.foldl change fs

/-- The fields that are set in a log, oldest first. -/
def settings (log : List FieldChange) : List (String × String) :=
  log.filterMap FieldChange.field?

/-- The first default of a name in a log. -/
def firstDefault? (log : List FieldChange) (asked : String) : Option (String × String) :=
  log.findSome? (FieldChange.default? asked)

theorem after_append (fs : Fields) (log later : List FieldChange) :
    fs.after (log ++ later) = (fs.after log).after later := List.foldl_append

theorem field?_change_set (fs : Fields) (field : String × String) (asked : String) :
    (fs.change (.set field)).field? asked =
      if sameFolded field.1 asked then some field else fs.field? asked := by
  split_ifs with hname
  · exact field?_set hname
  · exact field?_set_of_ne (by simpa using hname)

theorem field?_change_defaults (fs fields : Fields) (asked : String) :
    (fs.change (.defaults fields)).field? asked = (fs.field? asked).or (fields.field? asked) :=
  field?_foldl_setDefault fields.toList fs asked

theorem distinct_change (h : fs.Distinct) (c : FieldChange) : (fs.change c).Distinct := by
  cases c with
  | set field => exact distinct_set h field.1 field.2
  | defaults fields => exact distinct_foldl_setDefault h fields.toList

/-- Changes are seen by the look-ups of the names that they are about. -/
theorem field?_change_of_not_concerns (h : ¬ c.Concerns asked) :
    (fs.change c).field? asked = fs.field? asked := by
  cases c with
  | set field => exact (field?_change_set fs field asked).trans (if_neg h)
  | defaults fields => rw [field?_change_defaults, not_ne_iff.1 h, Option.or_none]

theorem distinct_after (h : fs.Distinct) (log : List FieldChange) : (fs.after log).Distinct := by
  induction log generalizing fs with
  | nil => exact h
  | cons c log ih => exact ih (distinct_change h c)

theorem field?_after_of_not_concerns (h : ∀ c ∈ log, ¬ c.Concerns asked) :
    (fs.after log).field? asked = fs.field? asked := by
  induction log generalizing fs with
  | nil => rfl
  | cons c log ih =>
    obtain ⟨hc, hlog⟩ := List.forall_mem_cons.1 h
    exact (ih hlog).trans (field?_change_of_not_concerns hc)

/-- **What a log leaves.** Of a name it is the field that was set last under any spelling, and if
none was, the first default: that of the default fields which were added while there was none. -/
theorem field?_after (log : List FieldChange) (asked : String) :
    (after ∅ log).field? asked =
      (lastNamed (settings log) asked).or (firstDefault? log asked) := by
  induction log using List.reverseRecOn with
  | nil => rfl
  | append_singleton log c ih =>
    have hdefault : firstDefault? (log ++ [c]) asked =
        (firstDefault? log asked).or (c.default? asked) := by
      rw [firstDefault?, List.findSome?_append, List.findSome?_singleton]
      rfl
    have hlast : after ∅ (log ++ [c]) = (after ∅ log).change c := after_append ∅ log [c]
    rw [hlast, hdefault, settings, List.filterMap_append, ← settings]
    cases c with
    | set field =>
      have hset : settings [.set field] = [field] := rfl
      rw [field?_change_set, ← settings, hset, lastNamed_append_singleton, ih]
      split_ifs
      · rfl
      · rw [FieldChange.default?, Option.or_none]
    | defaults fields =>
      have hset : settings [.defaults fields] = [] := rfl
      rw [field?_change_defaults, ← settings, hset, List.append_nil, ih, Option.or_assoc]
      rfl

end Fields

/-! ### Building -/

/-- A step in which a response is built. -/
inductive BuildStep where
  | field (name value : String)
  | contentType (type : String)
  | text (body : String)
  | body (bytes : List UInt8)
  | json (v : Json.Value)
  | defaults (config : Config)
  | answering (request : Request)
  | framed

namespace Response

variable (r : Response)

/-- A response after a step. -/
def build : BuildStep → Response
  | .field name value => r.setField name value
  | .contentType type => r.setContentType type
  | .text body => r.setText body
  | .body bytes => r.setBody bytes
  | .json v => r.setJson v
  | .defaults config => r.withDefaults config
  | .answering request => r.answering request
  | .framed => r.framed

/-- A response after steps, one after the other. -/
def run (steps : List BuildStep) : Response := steps.foldl build r

/-- The setting of the length field for a body. -/
def sizing (body : List UInt8) : FieldChange := .set ("Content-Length", decimal body.length)

/-- The changes of the fields in a step, oldest first. -/
def changes : BuildStep → List FieldChange
  | .field name value => [.set (name, value)]
  | .contentType type => [.set ("Content-Type", type)]
  | .text body => [sizing (Utf8.bytesOf body)]
  | .body bytes => [sizing bytes]
  | .json v => [.set ("Content-Type", Request.jsonType), sizing (Utf8.bytesOf v.write)]
  | .defaults config => [.defaults config.defaultFields]
  | .answering _ => []
  | .framed =>
    sizing r.body :: (r.announcement?.map fun value => .set (connectionName, value)).toList

/-- The log of the changes in steps. -/
def log (r : Response) : List BuildStep → List FieldChange
  | [] => []
  | step :: steps => r.changes step ++ (r.build step).log steps

/-- A step does its changes to the fields and nothing else. -/
theorem fields_build (step : BuildStep) :
    (r.build step).fields = r.fields.after (r.changes step) := by
  cases step with
  | framed =>
    rw [build, fields_framed, changes]
    cases r.announcement? <;> rfl
  | _ => rfl

theorem fields_run (steps : List BuildStep) :
    (r.run steps).fields = r.fields.after (r.log steps) := by
  induction steps generalizing r with
  | nil => rfl
  | cons step steps ih =>
    rw [log, Fields.after_append, ← fields_build]
    exact ih (r.build step)

/-- **Fields are a map up to case.** In whatever steps a response is built, no two of its names
agree up to case. Of each name it has the field that was set last under any spelling. If none was,
it has the default of the first default fields with the name, which are those that were added while
the name was absent; and otherwise it has none. A further step leaves the field of every name that
none of its changes is about. -/
theorem fieldMap_run (status : Status) (steps : List BuildStep) :
    let r := (ofStatus status).run steps
    let log := (ofStatus status).log steps
    r.fields.Distinct ∧
      (∀ name, r.field? name =
        ((lastNamed (Fields.settings log) name).or (Fields.firstDefault? log name)).map (·.2)) ∧
      ∀ step name, (∀ c ∈ r.changes step, ¬ c.Concerns name) →
        (r.build step).field? name = r.field? name := by
  intro r log
  have hfields : r.fields = Fields.after ∅ log := fields_run (ofStatus status) steps
  refine ⟨?_, fun name => ?_, fun step name hother => ?_⟩
  · rw [hfields]
    exact Fields.distinct_after Fields.distinct_empty log
  · rw [field?, Fields.value?_eq, hfields, Fields.field?_after]
  · rw [field?, field?, Fields.value?_eq, Fields.value?_eq, fields_build,
      Fields.field?_after_of_not_concerns hother]

/-- A field that was set in one spelling and then in another, and a default that came too late. -/
example :
    ((ofStatus .ok).run [.field "server" "a", .defaults {}, .text "hi", .field "SERVER" "b",
      .framed]).fields.toList = [("Content-Length", "2"), ("SERVER", "b")] := by
  decide

end Response

end HttpEngine
