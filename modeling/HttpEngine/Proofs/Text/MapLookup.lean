import HttpEngine.Proofs.Message.FieldLookup
import Mathlib.Data.List.Sort
/-!
# Maps by their look-ups

A text map lists just the entries that a look-up finds (`TextMap.mem_toList_iff`), and it lists them
in order of keys, so two maps with the same entries are the same (`TextMap.ext_mem`), and so are two
maps in which every look-up has the same result (`TextMap.ext_get?`). Inserting an entry is seen by
the look-ups of its key and by no other, so in the map of a list of entries the last of a key is
found (`TextMap.get?_ofList`).
-/

namespace HttpEngine

open Text

theorem mem_insertEntry_self (key value : String) (es : List (String × String)) :
    (key, value) ∈ insertEntry key value es := by
  induction es with
  | nil => exact List.mem_cons_self
  | cons e rest ih =>
    rw [insertEntry]
    split_ifs
    · exact List.mem_cons_self
    · exact List.mem_cons_self
    · exact List.mem_cons_of_mem e ih

namespace TextMap

variable {m n : TextMap} {key asked value : String}

theorem get?_eq (m : TextMap) (key : String) :
    m.get? key = (m.toList.find? fun e => e.1 == key).map (·.2) := rfl

@[simp] theorem get?_empty (key : String) : (∅ : TextMap).get? key = none := rfl

/-- An entry that is inserted is found. -/
@[simp] theorem get?_insert_self (m : TextMap) (key value : String) :
    (m.insert key value).get? key = some value :=
  get?_of_mem (mem_insertEntry_self key value m.toList)

/-- Inserting an entry leaves the look-ups of other keys as they are. -/
theorem get?_insert_of_ne (h : asked ≠ key) : (m.insert key value).get? asked = m.get? asked := by
  rw [get?_eq, get?_eq, toList_insert,
    find?_insertEntry_of_not (· == asked) (by simpa using h.symm)]

theorem mem_toList_iff : (key, value) ∈ m.toList ↔ m.get? key = some value := by
  refine ⟨get?_of_mem, fun h => ?_⟩
  rw [get?_eq, Option.map_eq_some_iff] at h
  obtain ⟨e, hfind, rfl⟩ := h
  have hkey : e.1 = key := by simpa using List.find?_some hfind
  rw [← hkey]
  exact List.mem_of_find?_eq_some hfind

theorem nodup_toList (m : TextMap) : m.toList.Nodup := by
  refine m.ordered.imp fun {a b} hlt heq => ?_
  rw [heq] at hlt
  exact String.lt_irrefl _ hlt

/-- A map is the set of its entries. -/
theorem ext_mem (h : ∀ e, e ∈ m.toList ↔ e ∈ n.toList) : m = n := by
  have hperm : m.toList.Perm n.toList :=
    (List.perm_ext_iff_of_nodup m.nodup_toList n.nodup_toList).2 h
  refine TextMap.ext (hperm.eq_of_pairwise (fun a b _ _ hab hba => ?_) m.ordered n.ordered)
  exact absurd (String.lt_trans hab hba) (String.lt_irrefl _)

/-- **A map is its look-ups.** -/
theorem ext_get? (h : ∀ key, m.get? key = n.get? key) : m = n :=
  ext_mem fun e => by rw [mem_toList_iff, mem_toList_iff, h e.1]

/-- A search finds the first key that passes, since entries are listed in order of keys. -/
theorem findKey?_eq_some_iff {test : String → Bool} {e : String × String} :
    m.findKey? test = some e ↔
      e ∈ m.toList ∧ test e.1 = true ∧ ∀ d ∈ m.toList, test d.1 = true → e.1 ≤ d.1 := by
  rw [findKey?, List.find?_eq_some_iff_append]
  constructor
  · rintro ⟨htest, before, after, heq, hbefore⟩
    have hsorted := m.ordered
    rw [heq, List.pairwise_append, List.pairwise_cons] at hsorted
    rw [toList, heq]
    refine ⟨by simp, htest, fun d hd hdtest => ?_⟩
    rcases List.mem_append.1 hd with hd | hd
    · exact absurd hdtest (by simpa using hbefore d hd)
    · rcases List.mem_cons.1 hd with rfl | hd
      · exact String.le_refl _
      · exact String.not_lt.1 fun hlt =>
          String.lt_irrefl _ (String.lt_trans hlt (hsorted.2.1.1 d hd))
  · rintro ⟨hmem, htest, hleast⟩
    obtain ⟨before, after, heq⟩ := List.append_of_mem hmem
    have hsorted := m.ordered
    rw [show m.entries = before ++ e :: after from heq, List.pairwise_append] at hsorted
    refine ⟨htest, before, after, heq, fun d hd => ?_⟩
    have hlt : d.1 < e.1 := hsorted.2.2 d hd e List.mem_cons_self
    rw [Bool.not_eq_true', Bool.eq_false_iff]
    exact fun hdtest => String.not_lt.2 (hleast d (heq ▸ List.mem_append_left _ hd) hdtest) hlt

/-! ### Maps of lists -/

variable {es : List (String × String)}

/-- The value of the last entry of a key. -/
def lastValue (es : List (String × String)) (key : String) : Option String :=
  ((es.filter fun e => e.1 == key).getLast?).map (·.2)

theorem lastValue_append_singleton (es : List (String × String)) (e : String × String)
    (key : String) :
    lastValue (es ++ [e]) key = if e.1 = key then some e.2 else lastValue es key := by
  rw [lastValue, List.filter_append, List.filter_singleton]
  split_ifs with hkey
  · rw [beq_iff_eq.2 hkey, cond_true, List.getLast?_concat, Option.map_some]
  · rw [beq_eq_false_iff_ne.2 hkey, cond_false, List.append_nil, lastValue]

theorem lastValue_eq_none_iff {key : String} :
    lastValue es key = none ↔ ∀ e ∈ es, e.1 ≠ key := by
  simp [lastValue]

theorem exists_lastValue_iff {key : String} :
    (∃ value, lastValue es key = some value) ↔ ∃ value, (key, value) ∈ es := by
  rw [← Option.ne_none_iff_exists', Ne, lastValue_eq_none_iff]
  simp

/-- **The last of a key wins.** -/
theorem get?_ofList (es : List (String × String)) (key : String) :
    (ofList es).get? key = lastValue es key := by
  induction es using List.reverseRecOn with
  | nil => rfl
  | append_singleton es e ih =>
    rw [ofList_append_singleton, lastValue_append_singleton]
    split_ifs with hkey
    · rw [← hkey, get?_insert_self]
    · rw [get?_insert_of_ne (Ne.symm hkey), ih]

/-- The map of a list has the keys of the list. -/
theorem exists_mem_ofList_iff {key : String} :
    (∃ value, (key, value) ∈ (ofList es).toList) ↔ ∃ value, (key, value) ∈ es := by
  simp only [mem_toList_iff, get?_ofList, exists_lastValue_iff]

end TextMap

/-- A name is found in the map of a list if one of its spellings is listed. -/
theorem Fields.field?_ofList_eq_none_iff {es : List (String × String)} {name : String} :
    field? (TextMap.ofList es) name = none ↔ ∀ e ∈ es, sameFolded e.1 name = false := by
  rw [field?_eq, List.find?_eq_none]
  constructor
  · intro h e he
    obtain ⟨value, hmem⟩ := TextMap.exists_mem_ofList_iff.2 ⟨e.2, he⟩
    simpa using h (e.1, value) hmem
  · intro h d hd
    obtain ⟨value, hmem⟩ := TextMap.exists_mem_ofList_iff.1 ⟨d.2, hd⟩
    simpa using h (d.1, value) hmem

end HttpEngine
