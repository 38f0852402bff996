import HttpEngine.Proofs.Message.Framed
/-!
# Framing whatever fields there are

Stages may put any fields on a response, several spellings of one name included, and may change its
body without its length field. Framing brings the fields that it is about in order, from whatever
they were (`Response.framed_restores`): there is one length field, and one connection field where
the response departs from its version. All other fields keep their spelling, their value and their
place.

Framing a second time changes nothing (`Response.framed_framed`), since setting a field to what it
is already, where no other spelling of its name is left, changes nothing (`Fields.set_eq_self`).
-/

namespace HttpEngine

open Text

theorem filter_insertEntry_of_not {key value : String} {es : List (String × String)}
    (test : String → Bool) (h : test key = false) :
    (insertEntry key value es).filter (fun e => test e.1) = es.filter fun e => test e.1 := by
  induction es with
  | nil => simp [insertEntry, h]
  | cons e rest ih =>
    rw [insertEntry]
    split_ifs with hlt heq
    · exact List.filter_cons_of_neg (by simp [h])
    · -- the entry that is replaced has the key itself, so it does not pass either
      rw [List.filter_cons_of_neg (by simp [h]), List.filter_cons_of_neg (by simp [← heq, h])]
    · rw [List.filter_cons, List.filter_cons, ih]

namespace Fields

variable {fs : Fields} {name asked value : String}

/-- The fields of a name, in every spelling of it. -/
def named (fs : Fields) (name : String) : List (String × String) :=
  fs.toList.filter fun e => sameFolded e.1 name

theorem mem_named_iff {e : String × String} :
    e ∈ fs.named name ↔ e ∈ fs.toList ∧ sameFolded e.1 name = true := List.mem_filter

/-- Setting a field leaves the fields in their places that no spelling of its name is among. -/
theorem filter_set (test : String → Bool)
    (h : ∀ spelling, sameFolded spelling name = true → test spelling = false) :
    (fs.set name value).toList.filter (fun e => test e.1) =
      fs.toList.filter fun e => test e.1 := by
  rw [toList_set, filter_insertEntry_of_not test (h name (sameFolded_refl name)),
    List.filter_filter]
  congr 1
  funext e
  cases hname : sameFolded e.1 name with
  | false => simp
  | true => simp [h e.1 hname]

/-- A field that was set is the only one of its name. -/
theorem named_set (fs : Fields) (name value : String) :
    (fs.set name value).named name = [(name, value)] := by
  have hothers : (fs.toList.filter fun e => !sameFolded e.1 name).filter
      (fun e => sameFolded e.1 name) = [] := by
    rw [List.filter_filter, List.filter_eq_nil_iff]
    simp
  have hself : sameFolded (name, value).1 name = true := sameFolded_refl name
  have hperm := (perm_set fs name value).filter fun e => sameFolded e.1 name
  rw [List.filter_cons, if_pos hself, hothers] at hperm
  exact List.perm_singleton.1 hperm

theorem named_set_of_ne (h : sameFolded name asked = false) :
    (fs.set name value).named asked = fs.named asked := by
  refine filter_set (sameFolded · asked) fun spelling hspelling => ?_
  rw [Bool.eq_false_iff] at h ⊢
  exact fun hasked => h (sameFolded_trans (by rwa [sameFolded_comm]) hasked)

/-- **Setting a field to what it is changes nothing**, where it is the only one of its name. -/
theorem set_eq_self (h : fs.named name = [(name, value)]) : fs.set name value = fs := by
  refine TextMap.ext_mem fun e => ?_
  have hnamed : e ∈ fs.named name ↔ e = (name, value) := by rw [h, List.mem_singleton]
  rw [mem_named_iff] at hnamed
  rw [mem_set_iff]
  cases hname : sameFolded e.1 name with
  | false =>
    have hne : e ≠ (name, value) := by
      rintro rfl
      simp at hname
    rw [or_iff_right hne, and_iff_left rfl]
  | true =>
    rw [and_iff_left hname] at hnamed
    rw [hnamed, or_iff_left fun h => Bool.noConfusion h.2]

end Fields

namespace Response

variable (r : Response)

theorem setField_eq_self {r : Response} {name value : String}
    (h : r.fields.named name = [(name, value)]) : r.setField name value = r := by
  rw [setField, Fields.set_eq_self h]

theorem announcement?_framed : r.framed.announcement? = r.announcement? := by
  rw [announcement?, announcement?, version_framed, persists_framed]

theorem named_length_framed :
    r.framed.fields.named "Content-Length" = [("Content-Length", decimal r.body.length)] := by
  have hother : sameFolded connectionName "Content-Length" = false := by decide
  rw [fields_framed]
  cases r.announcement? with
  | none => exact Fields.named_set r.fields _ _
  | some value => exact (Fields.named_set_of_ne hother).trans (Fields.named_set r.fields _ _)

theorem named_connection_framed :
    r.framed.fields.named connectionName =
      (r.announcement?.map fun value => [(connectionName, value)]).getD
        (r.fields.named connectionName) := by
  have hother : sameFolded "Content-Length" connectionName = false := by decide
  rw [fields_framed]
  cases r.announcement? with
  | none => exact Fields.named_set_of_ne hother
  | some value => exact Fields.named_set _ connectionName value

/-- The other fields are left in their places. -/
theorem filter_framed :
    r.framed.fields.toList.filter (fun e => ¬ IsFramingName e.1) =
      r.fields.toList.filter fun e => ¬ IsFramingName e.1 := by
  have hset : ∀ {fs : Fields} {name value : String}, IsFramingName name →
      (fs.set name value).toList.filter (fun e => ¬ IsFramingName e.1) =
        fs.toList.filter fun e => ¬ IsFramingName e.1 := by
    intro fs name value hname
    refine Fields.filter_set (fun key => decide (¬ IsFramingName key)) fun spelling hspelling => ?_
    rw [sameFolded_comm] at hspelling
    refine decide_eq_false (not_not_intro (hname.imp ?_ ?_))
    · exact fun h => sameFolded_trans h hspelling
    · exact fun h => sameFolded_trans h hspelling
  have hlength : IsFramingName "Content-Length" := .inl (sameFolded_refl _)
  have hconnection : IsFramingName connectionName := .inr (sameFolded_refl _)
  rw [fields_framed]
  cases r.announcement? with
  | none => exact hset hlength
  | some value => exact (hset hconnection).trans (hset hlength)

/-- **Framing a framed response changes nothing.** -/
theorem framed_framed : r.framed.framed = r.framed := by
  have hlength : r.framed.setField "Content-Length" (decimal r.framed.body.length) = r.framed := by
    refine setField_eq_self ?_
    rw [body_framed]
    exact r.named_length_framed
  have hannounced : r.framed.announcePersistence = r.framed := by
    have hnamed := r.named_connection_framed
    rw [announcePersistence_eq, announcement?_framed]
    cases hannouncement : r.announcement? with
    | none => rfl
    | some value =>
      rw [hannouncement] at hnamed
      exact setField_eq_self hnamed
  calc r.framed.framed
      = (r.framed.setField "Content-Length"
          (decimal r.framed.body.length)).announcePersistence := rfl
    _ = r.framed.announcePersistence := by rw [hlength]
    _ = r.framed := hannounced

/-- **Framing restores what it is about and nothing else.** Whatever the fields of a response are,
once it is framed it has one length field, in its usual spelling and with the length of the body. It
has one connection field, which says what happens, if that is not the default of the version, and
otherwise those that it had. The fields of all other names are left, in their order, and so are
status, version, body and choice. Framing again changes nothing. -/
theorem framed_restores :
    r.framed.fields.named "Content-Length" = [("Content-Length", decimal r.body.length)] ∧
      (r.version = .http11 → r.persists = false →
        r.framed.fields.named connectionName = [(connectionName, "close")]) ∧
      (r.version = .http10 → r.persists = true →
        r.framed.fields.named connectionName = [(connectionName, "keep-alive")]) ∧
      (r.persists = r.version.persists →
        r.framed.fields.named connectionName = r.fields.named connectionName) ∧
      (r.framed.fields.toList.filter fun e => ¬ IsFramingName e.1) =
        (r.fields.toList.filter fun e => ¬ IsFramingName e.1) ∧
      (r.framed.status = r.status ∧ r.framed.version = r.version ∧ r.framed.body = r.body ∧
        r.framed.persistence = r.persistence) ∧
      r.framed.framed = r.framed := by
  have hconnection := r.named_connection_framed
  refine ⟨r.named_length_framed, fun hversion hpersists => ?_, fun hversion hpersists => ?_,
    fun hdefault => ?_, r.filter_framed, ?_, r.framed_framed⟩
  · rw [hconnection, announcement?, hversion, hpersists]
    rfl
  · rw [hconnection, announcement?, hversion, hpersists]
    rfl
  · rw [hconnection, announcement?, hdefault]
    cases r.version <;> rfl
  · exact ⟨r.status_framed, r.version_framed, r.body_framed, r.persistence_framed⟩

/-- Several spellings of both names, lengths that are out of date, and a response that closes. -/
theorem framed_restores_disordered :
    let r : Response :=
      { status := .ok
        fields := .ofList [("CONNECTION", "upgrade"), ("Connection", "keep-alive"), ("X-Id", "1"),
          ("content-Length", "7"), ("content-length", "99")]
        body := [104, 105]
        persistence := some false }
    r.version = .http11 ∧ r.persists = false ∧
      r.framed.fields.named connectionName = [(connectionName, "close")] ∧
      r.framed.fields.toList =
        [("Connection", "close"), ("Content-Length", "2"), ("X-Id", "1")] ∧
      r.framed.framed = r.framed := by
  intro r
  have hversion : r.version = .http11 := rfl
  have hpersists : r.persists = false := rfl
  obtain ⟨-, hclose, -, -, -, -, hagain⟩ := framed_restores r
  exact ⟨hversion, hpersists, hclose hversion hpersists, by decide, hagain⟩

end Response

end HttpEngine
