import HttpEngine.Proofs.Message.FieldLookup
import HttpEngine.Proofs.Text.MapLookup
/-!
# Fields with distinct names

Where no two names agree up to case, a name has one field at most, so it does not matter in which
order the fields are searched (`Fields.find?_of_perm`), and the look-ups of all names tell a field
map from every other (`Fields.ext_field?`). Setting a field keeps the names distinct, and so does
inserting one under a name that there is none of, as default fields are.
-/

namespace HttpEngine

open Text

namespace Fields

variable {fs gs : Fields} {name value : String} {es ds : List (String × String)}

/-- That no two names in a list of fields agree up to case. -/
def DistinctNames (es : List (String × String)) : Prop :=
  es.Pairwise fun a b => sameFolded a.1 b.1 = false

theorem DistinctNames.perm (h : DistinctNames es) (hperm : es.Perm ds) : DistinctNames ds :=
  (hperm.pairwise_iff fun {a b} hab => by rwa [sameFolded_comm]).1 h

/-- A field is the one of its name. -/
theorem DistinctNames.find?_eq_some_iff (h : DistinctNames es) {e : String × String} :
    es.find? (fun e => sameFolded e.1 name) = some e ↔ e ∈ es ∧ sameFolded e.1 name = true := by
  refine ⟨fun hfind => ⟨List.mem_of_find?_eq_some hfind, ?_⟩, ?_⟩
  · exact List.find?_some (p := fun e : String × String => sameFolded e.1 name) hfind
  rintro ⟨he, hname⟩
  induction es with
  | nil => exact absurd he List.not_mem_nil
  | cons d rest ih =>
    obtain ⟨hd, hrest⟩ := List.pairwise_cons.1 h
    rcases List.mem_cons.1 he with rfl | he
    · exact List.find?_cons_of_pos hname
    · have hother : sameFolded d.1 name = false := by
        refine Bool.eq_false_iff.2 fun hd' => ?_
        have hsame := sameFolded_trans hd' ((sameFolded_comm name e.1).trans hname)
        rw [hd e he] at hsame
        exact Bool.false_ne_true hsame
      rw [List.find?_cons_of_neg (by simp [hother])]
      exact ih hrest he

/-- **The order does not matter.** Fields with distinct names are found in every order of them. -/
theorem DistinctNames.find?_of_perm (h : DistinctNames es) (hperm : ds.Perm es) (name : String) :
    ds.find? (fun e => sameFolded e.1 name) = es.find? fun e => sameFolded e.1 name := by
  refine Option.ext fun e => ?_
  rw [h.find?_eq_some_iff, (h.perm hperm.symm).find?_eq_some_iff, hperm.mem_iff]

/-- Field maps with distinct names in which every look-up finds the same are the same. -/
theorem ext_field? (hf : fs.Distinct) (hg : gs.Distinct)
    (h : ∀ name, fs.field? name = gs.field? name) : fs = gs := by
  have hmem : ∀ {fs : Fields} {e : String × String}, fs.Distinct →
      (e ∈ fs.toList ↔ fs.field? e.1 = some e) := fun {fs e} hdistinct => by
    rw [field?_eq, DistinctNames.find?_eq_some_iff hdistinct, and_iff_left (sameFolded_refl e.1)]
  exact TextMap.ext_mem fun e => by rw [hmem hf, hmem hg, h]

/-! ### What keeps names distinct -/

theorem distinct_empty : Distinct ∅ := List.Pairwise.nil

/-- A field under a name that there is none of is one field more. -/
theorem perm_insert (hnone : fs.field? name = none) (value : String) :
    (TextMap.insert fs name value).toList.Perm ((name, value) :: fs.toList) := by
  refine perm_insertEntry fun e he hkey => ?_
  rw [field?_eq, List.find?_eq_none] at hnone
  exact hnone e he (by rw [hkey, sameFolded_refl])

theorem distinct_insert (h : fs.Distinct) (hnone : fs.field? name = none) (value : String) :
    Distinct (TextMap.insert fs name value) := by
  refine DistinctNames.perm (List.pairwise_cons.2 ⟨fun e he => ?_, h⟩) (perm_insert hnone value).symm
  rw [field?_eq, List.find?_eq_none] at hnone
  rw [sameFolded_comm]
  exact Bool.eq_false_iff.2 (hnone e he)

/-- Setting a field puts it in place of every spelling of its name. -/
theorem perm_set (fs : Fields) (name value : String) :
    (fs.set name value).toList.Perm
      ((name, value) :: fs.toList.filter fun e => !sameFolded e.1 name) := by
  refine perm_insertEntry fun e he hkey => ?_
  have hother := not_sameFolded_of_mem_filter fs (sameFolded_refl name) e he
  rw [hkey, sameFolded_refl] at hother
  exact Bool.noConfusion hother

theorem mem_set_iff {e : String × String} :
    e ∈ (fs.set name value).toList ↔
      e = (name, value) ∨ e ∈ fs.toList ∧ sameFolded e.1 name = false := by
  rw [(perm_set fs name value).mem_iff, List.mem_cons, List.mem_filter, Bool.not_eq_true']

theorem distinct_set (h : fs.Distinct) (name value : String) : (fs.set name value).Distinct := by
  refine DistinctNames.perm (List.pairwise_cons.2 ⟨fun e he => ?_, h.filter _⟩)
    (perm_set fs name value).symm
  rw [sameFolded_comm]
  exact not_sameFolded_of_mem_filter fs (sameFolded_refl name) e he

/-! ### Default fields -/

theorem distinct_setDefault (h : fs.Distinct) (name value : String) :
    (fs.setDefault name value).Distinct := by
  rw [setDefault]
  split_ifs with hhas
  · exact h
  · exact distinct_insert h (by simpa [has, value?_eq] using hhas) value

theorem mem_setDefault_iff {e : String × String} :
    e ∈ (fs.setDefault name value).toList ↔
      e ∈ fs.toList ∨ e = (name, value) ∧ fs.field? name = none := by
  rw [setDefault]
  split_ifs with hhas
  · have hsome : fs.field? name ≠ none :=
      Option.isSome_iff_ne_none.1 (by simpa [has, value?_eq] using hhas)
    simp [hsome]
  · have hnone : fs.field? name = none := by simpa [has, value?_eq] using hhas
    rw [(perm_insert hnone value).mem_iff, List.mem_cons, or_comm]
    simp [hnone]

theorem distinct_foldl_setDefault (h : fs.Distinct) (es : List (String × String)) :
    Distinct (es.foldl (fun fs e => setDefault fs e.1 e.2) fs) := by
  induction es generalizing fs with
  | nil => exact h
  | cons d rest ih => exact ih (distinct_setDefault h d.1 d.2)

/-- Default fields with distinct names are added where there was none of their name. -/
theorem mem_foldl_setDefault_iff (hes : DistinctNames es) {e : String × String} :
    e ∈ TextMap.toList (es.foldl (fun fs e => setDefault fs e.1 e.2) fs) ↔
      e ∈ fs.toList ∨ e ∈ es ∧ fs.field? e.1 = none := by
  induction es generalizing fs with
  | nil => simp
  | cons d rest ih =>
    obtain ⟨hd, hrest⟩ := List.pairwise_cons.1 hes
    have hother : e ∈ rest → ((fs.setDefault d.1 d.2).field? e.1 = none ↔ fs.field? e.1 = none) := by
      intro he
      rw [field?_setDefault, hd e he, if_neg Bool.false_ne_true, Option.or_none]
    rw [List.foldl_cons, ih hrest, mem_setDefault_iff, List.mem_cons]
    constructor
    · rintro ((he | ⟨rfl, hnone⟩) | ⟨he, hnone⟩)
      · exact .inl he
      · exact .inr ⟨.inl rfl, hnone⟩
      · exact .inr ⟨.inr he, (hother he).1 hnone⟩
    · rintro (he | ⟨rfl | he, hnone⟩)
      · exact .inl (.inl he)
      · exact .inl (.inr ⟨rfl, hnone⟩)
      · exact .inr ⟨he, (hother he).2 hnone⟩

end Fields

end HttpEngine
