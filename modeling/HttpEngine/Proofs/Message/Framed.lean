import HttpEngine.Message.Response
import HttpEngine.Proofs.Message.DistinctFields
/-!
# What framing sets and what it leaves alone

Framing a response sets two fields, one after the other (`Response.fields_framed`). The second is
only set where the response departs from its version (`Response.announcement?`), and all that
follows looks at these cases no further.

The version of the response, its status, its body and its choice about the connection stay as they
were, and so does what they decide. So do the fields of all other names
(`Response.mem_fields_framed_iff`).
-/

namespace HttpEngine.Response

open Text

variable (r : Response)

/-- What framing sets the connection field to, where it does. -/
def announcement? : Option String :=
  match r.version, r.persists with
  | .http11, false => some "close"
  | .http10, true => some "keep-alive"
  | _, _ => none

theorem announcePersistence_eq :
    r.announcePersistence = (r.announcement?.map (r.setField connectionName)).getD r := by
  rw [announcePersistence, announcement?]
  cases r.version <;> cases r.persists <;> rfl

/-- Framing sets fields and nothing else. -/
theorem exists_framed_eq : ∃ fields, r.framed = { r with fields := fields } := by
  rw [framed, announcePersistence_eq]
  cases (r.setField "Content-Length" (decimal r.body.length)).announcement? <;> exact ⟨_, rfl⟩

@[simp] theorem status_framed : r.framed.status = r.status := by
  obtain ⟨fields, h⟩ := r.exists_framed_eq
  rw [h]

@[simp] theorem version_framed : r.framed.version = r.version := by
  obtain ⟨fields, h⟩ := r.exists_framed_eq
  rw [h]

@[simp] theorem body_framed : r.framed.body = r.body := by
  obtain ⟨fields, h⟩ := r.exists_framed_eq
  rw [h]

@[simp] theorem persistence_framed : r.framed.persistence = r.persistence := by
  obtain ⟨fields, h⟩ := r.exists_framed_eq
  rw [h]

@[simp] theorem persists_framed : r.framed.persists = r.persists := by
  rw [persists, persists, persistence_framed, version_framed]

/-! ### Fields -/

/-- The names that framing sets, in every spelling. -/
def IsFramingName (name : String) : Prop :=
  sameFolded "Content-Length" name = true ∨ sameFolded connectionName name = true

instance (name : String) : Decidable (IsFramingName name) := inferInstanceAs (Decidable (_ ∨ _))

/-- The fields of a framed response, as they are set one after the other. -/
theorem fields_framed :
    r.framed.fields =
      let sized := r.fields.set "Content-Length" (decimal r.body.length)
      (r.announcement?.map (sized.set connectionName)).getD sized := by
  have hsame : (r.setField "Content-Length" (decimal r.body.length)).announcement? =
      r.announcement? := rfl
  rw [framed, announcePersistence_eq, hsame]
  cases r.announcement? <;> rfl

/-- Framing sets the length field, and then perhaps the connection field. -/
theorem fields_framed_cases :
    r.framed.fields = r.fields.set "Content-Length" (decimal r.body.length) ∨
      ∃ value, r.framed.fields =
        (r.fields.set "Content-Length" (decimal r.body.length)).set connectionName value := by
  rw [fields_framed]
  cases r.announcement? with
  | none => exact .inl rfl
  | some value => exact .inr ⟨value, rfl⟩

variable {r} {name : String}

/-- A framed response states the length of its body. -/
theorem field?_length_framed (r : Response) :
    r.framed.field? "Content-Length" = some (decimal r.body.length) := by
  have hother : sameFolded connectionName "Content-Length" = false := by decide
  rw [field?]
  rcases r.fields_framed_cases with hfields | ⟨value, hfields⟩
  · rw [hfields, Fields.value?_set (by decide)]
  · rw [hfields, Fields.value?_set_of_ne hother, Fields.value?_set (by decide)]

theorem field?_framed_of_not_isFramingName (h : ¬ IsFramingName name) :
    r.framed.fields.field? name = r.fields.field? name := by
  rw [IsFramingName, not_or, Bool.not_eq_true, Bool.not_eq_true] at h
  rcases r.fields_framed_cases with hfields | ⟨value, hfields⟩
  · rw [hfields, Fields.field?_set_of_ne h.1]
  · rw [hfields, Fields.field?_set_of_ne h.2, Fields.field?_set_of_ne h.1]

/-- Framing adds no field of another name and takes none away. -/
theorem mem_fields_framed_iff {e : String × String} (h : ¬ IsFramingName e.1) :
    e ∈ r.framed.fields.toList ↔ e ∈ r.fields.toList := by
  have hset : ∀ {fs : Fields} {name value : String}, sameFolded name e.1 = false →
      (e ∈ (fs.set name value).toList ↔ e ∈ fs.toList) := by
    intro fs name value hname
    have hne : e ≠ (name, value) := by
      rintro rfl
      simp at hname
    rw [Fields.mem_set_iff, or_iff_right hne, sameFolded_comm, and_iff_left hname]
  rw [IsFramingName, not_or, Bool.not_eq_true, Bool.not_eq_true] at h
  rcases r.fields_framed_cases with hfields | ⟨value, hfields⟩
  · rw [hfields, hset h.1]
  · rw [hfields, hset h.2, hset h.1]

theorem distinct_framed (h : r.fields.Distinct) : r.framed.fields.Distinct := by
  have hlength := Fields.distinct_set h "Content-Length" (decimal r.body.length)
  rcases r.fields_framed_cases with hfields | ⟨value, hfields⟩
  · rw [hfields]
    exact hlength
  · rw [hfields]
    exact Fields.distinct_set hlength connectionName value

end HttpEngine.Response
