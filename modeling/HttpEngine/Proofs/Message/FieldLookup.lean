import HttpEngine.Message.Fields
import Mathlib.Data.List.Induction
import Mathlib.Data.List.Pairwise
import Mathlib.Data.List.Perm.Basic
/-!
# Looking up a field that was set

Setting a field is seen by every look-up of its name, in whatever case it is asked for, and by no
other look-up. That holds of every field map, one with several spellings of a name included: setting
drops all of them. Inserting a field under a name that has none yet is seen in the same way.

The map of a list of fields with distinct names has just these fields (`TextMap.perm_ofList`).
-/

namespace HttpEngine

open Text

variable {key value : String} {es : List (String × String)} (test : String → Bool)

theorem find?_insertEntry_of_not (h : test key = false) :
    (insertEntry key value es).find? (fun e => test e.1) = es.find? fun e => test e.1 := by
  induction es with
  | nil => simp [insertEntry, h]
  | cons e rest ih =>
    rw [insertEntry]
    split_ifs with hlt heq
    · exact List.find?_cons_of_neg (by simp [h])
    · -- the entry that is replaced has the key itself, so it does not pass either
      rw [List.find?_cons_of_neg (by simp [h]), List.find?_cons_of_neg (by simp [← heq, h])]
    · rw [List.find?_cons, List.find?_cons, ih]

theorem find?_insertEntry_of_only (h : test key = true) (hnone : ∀ e ∈ es, test e.1 = false) :
    (insertEntry key value es).find? (fun e => test e.1) = some (key, value) := by
  induction es with
  | nil => simp [insertEntry, h]
  | cons e rest ih =>
    obtain ⟨he, hrest⟩ := List.forall_mem_cons.1 hnone
    rw [insertEntry]
    split_ifs with hlt heq
    · exact List.find?_cons_of_pos h
    · exact List.find?_cons_of_pos h
    · rw [List.find?_cons_of_neg (by simp [he]), ih hrest]

/-- An entry under a new key is one entry more. -/
theorem perm_insertEntry (h : ∀ e ∈ es, e.1 ≠ key) :
    (insertEntry key value es).Perm ((key, value) :: es) := by
  induction es with
  | nil => exact .refl _
  | cons e rest ih =>
    obtain ⟨he, hrest⟩ := List.forall_mem_cons.1 h
    rw [insertEntry]
    split_ifs with hlt heq
    · exact .refl _
    · exact absurd heq.symm he
    · exact ((ih hrest).cons e).trans (.swap _ _ _)

/-! ### Maps of lists -/

namespace TextMap

theorem ofList_append_singleton (es : List (String × String)) (e : String × String) :
    ofList (es ++ [e]) = (ofList es).insert e.1 e.2 := by
  rw [ofList, List.foldl_append, ← ofList, List.foldl_cons, List.foldl_nil]

/-- **Nothing is lost.** The map of a list whose keys are distinct has the entries of the list. -/
theorem perm_ofList {es : List (String × String)} (h : es.Pairwise fun a b => a.1 ≠ b.1) :
    (ofList es).toList.Perm es := by
  induction es using List.reverseRecOn with
  | nil => exact .refl _
  | append_singleton es e ih =>
    obtain ⟨hes, -, hlast⟩ := List.pairwise_append.1 h
    have hperm := ih hes
    have hnew : ∀ d ∈ (ofList es).toList, d.1 ≠ e.1 := fun d hd =>
      hlast d (hperm.mem_iff.1 hd) e (List.mem_singleton_self e)
    rw [ofList_append_singleton, toList_insert]
    exact (perm_insertEntry hnew).trans ((hperm.cons e).trans (List.perm_append_singleton e es).symm)

end TextMap

/-! ### Fields -/

namespace Fields

variable {fs : Fields} {name asked value option : String}

/-- The field of a name, as a search in the list of fields. -/
theorem field?_eq (fs : Fields) (asked : String) :
    fs.field? asked = fs.toList.find? fun e => sameFolded e.1 asked := rfl

theorem value?_eq (fs : Fields) (asked : String) :
    fs.value? asked = (fs.field? asked).map (·.2) := rfl

theorem value?_eq_none_iff : fs.value? asked = none ↔ fs.field? asked = none := by
  rw [value?_eq, Option.map_eq_none_iff]

theorem toList_set (fs : Fields) (name value : String) :
    (fs.set name value).toList =
      insertEntry name value (fs.toList.filter fun e => !sameFolded e.1 name) := rfl

/-- A field is found under every spelling of its name if there was none. -/
theorem field?_insert (hnone : fs.field? asked = none) (h : sameFolded name asked = true) :
    field? (fs.insert name value) asked = some (name, value) := by
  rw [field?_eq, List.find?_eq_none] at hnone
  rw [field?_eq, TextMap.toList_insert, find?_insertEntry_of_only (sameFolded · asked) h
    fun e he => by simpa using hnone e he]

/-- Inserting a field leaves the others as they are. -/
theorem field?_insert_of_ne (h : sameFolded name asked = false) :
    field? (fs.insert name value) asked = fs.field? asked := by
  rw [field?_eq, TextMap.toList_insert, find?_insertEntry_of_not (sameFolded · asked) h, field?_eq]

theorem value?_insert (hnone : fs.value? asked = none) (h : sameFolded name asked = true) :
    value? (fs.insert name value) asked = some value := by
  rw [value?_eq, field?_insert (value?_eq_none_iff.1 hnone) h, Option.map_some]

theorem value?_insert_of_ne (h : sameFolded name asked = false) :
    value? (fs.insert name value) asked = fs.value? asked := by
  rw [value?_eq, field?_insert_of_ne h, value?_eq]

/-- No spelling of a name is left where the name is about to be set. -/
theorem not_sameFolded_of_mem_filter (fs : Fields) (h : sameFolded name asked = true) :
    ∀ e ∈ fs.toList.filter fun e => !sameFolded e.1 name, sameFolded e.1 asked = false := by
  intro e he
  have hname : sameFolded e.1 name = false := by simpa using (List.mem_filter.1 he).2
  rw [Bool.eq_false_iff] at hname ⊢
  exact fun hasked => hname (sameFolded_trans hasked (by rwa [sameFolded_comm]))

/-- A field that was set is found under every spelling of its name. -/
theorem field?_set (h : sameFolded name asked = true) :
    (fs.set name value).field? asked = some (name, value) := by
  rw [field?_eq, toList_set,
    find?_insertEntry_of_only (sameFolded · asked) h (not_sameFolded_of_mem_filter fs h)]

/-- Setting a field leaves the others as they are. -/
theorem field?_set_of_ne (h : sameFolded name asked = false) :
    (fs.set name value).field? asked = fs.field? asked := by
  rw [field?_eq, toList_set, find?_insertEntry_of_not (sameFolded · asked) h,
    List.find?_filter, field?_eq]
  congr 1
  funext e
  cases hasked : sameFolded e.1 asked with
  | false => simp
  | true =>
    -- a spelling of the name that is asked for is none of the name that is set
    have hname : sameFolded e.1 name = false := by
      rw [Bool.eq_false_iff] at h ⊢
      exact fun hname => h (sameFolded_trans (by rwa [sameFolded_comm]) hasked)
    simp [hname]

theorem value?_set (h : sameFolded name asked = true) :
    (fs.set name value).value? asked = some value := by
  rw [value?_eq, field?_set h, Option.map_some]

theorem value?_set_of_ne (h : sameFolded name asked = false) :
    (fs.set name value).value? asked = fs.value? asked := by
  rw [value?_eq, field?_set_of_ne h, value?_eq]

/-! ### Default fields -/

theorem field?_congr (h : sameFolded name asked = true) : fs.field? name = fs.field? asked := by
  rw [field?_eq, field?_eq]
  congr 1
  funext e
  rw [Bool.eq_iff_iff]
  exact ⟨fun he => sameFolded_trans he h,
    fun he => sameFolded_trans he (by rwa [sameFolded_comm])⟩

/-- A default field is found where there was none of its name. -/
theorem field?_setDefault (fs : Fields) (name value asked : String) :
    (fs.setDefault name value).field? asked =
      (fs.field? asked).or (if sameFolded name asked then some (name, value) else none) := by
  rw [setDefault, has, value?_eq, Option.isSome_map]
  split_ifs with hhas hsame hsame
  · rw [field?_congr hsame] at hhas
    exact (Option.or_of_isSome hhas).symm
  · rw [Option.or_none]
  · have hnone : fs.field? asked = none := by
      rw [← field?_congr hsame]
      simpa using hhas
    rw [field?_insert hnone hsame, hnone, Option.none_or]
  · rw [field?_insert_of_ne (by simpa using hsame), Option.or_none]

/-- Default fields that are set in turn are found where there was none of their name, and the first
of several spellings of one name is. -/
theorem field?_foldl_setDefault (es : List (String × String)) (fs : Fields) (asked : String) :
    (es.foldl (fun fs e => setDefault fs e.1 e.2) fs).field? asked =
      (fs.field? asked).or (es.find? fun e => sameFolded e.1 asked) := by
  induction es generalizing fs with
  | nil => rw [List.foldl_nil, List.find?_nil, Option.or_none]
  | cons e rest ih =>
    rw [List.foldl_cons, ih, field?_setDefault, Option.or_assoc, List.find?_cons]
    congr 1
    cases sameFolded e.1 asked <;> rfl

/-! ### Options -/

/-- An option that is set as the whole value of a field is one of its options. -/
theorem hasOption_set (hcomma : ',' ∉ option.toList) (htrim : trim option.toList = option.toList) :
    (fs.set name option).hasOption name option = true := by
  rw [hasOption, value?_set (sameFolded_refl name)]
  simp [List.splitOn_eq_singleton hcomma, htrim]

theorem hasOption_set_of_ne (h : sameFolded name asked = false) :
    (fs.set name value).hasOption asked option = fs.hasOption asked option := by
  rw [hasOption, value?_set_of_ne h, hasOption]

end Fields

end HttpEngine
