/-!
# Maps from text to text

A `TextMap` holds each key once, in increasing order of code points, so two maps with the same
entries are equal and every listing of a map is in that order. Header fields, default fields, query
parameters and path parameters are all text maps; what differs is how their keys are compared,
and the comparison up to case is built on top of this one.
-/

namespace HttpEngine

/-- Entries with an entry for `key` added or replaced, in order of keys. -/
def insertEntry (key value : String) : List (String × String) → List (String × String)
  | [] => [(key, value)]
  | e :: rest =>
    if key < e.1 then (key, value) :: e :: rest
    else if key = e.1 then (key, value) :: rest
    else e :: insertEntry key value rest

theorem mem_insertEntry {key value : String} {es : List (String × String)}
    {e : String × String} (h : e ∈ insertEntry key value es) : e = (key, value) ∨ e ∈ es := by
  induction es with
  | nil => simpa [insertEntry] using h
  | cons d rest ih =>
    unfold insertEntry at h
    split at h
    · simpa using h
    · split at h
      · simp only [List.mem_cons] at h ⊢
        exact h.imp_right .inr
      · simp only [List.mem_cons] at h ⊢
        rcases h with h | h
        · exact .inr (.inl h)
        · exact (ih h).imp_right .inr

theorem pairwise_insertEntry (key value : String) {es : List (String × String)}
    (h : es.Pairwise (·.1 < ·.1)) : (insertEntry key value es).Pairwise (·.1 < ·.1) := by
  induction es with
  | nil => simp [insertEntry]
  | cons d rest ih =>
    have hd := List.pairwise_cons.1 h
    unfold insertEntry
    split
    · next hlt =>
      refine List.pairwise_cons.2 ⟨fun e he => ?_, h⟩
      rcases List.mem_cons.1 he with rfl | he
      · exact hlt
      · exact String.lt_trans hlt (hd.1 e he)
    · next hnlt =>
      split
      · next heq =>
        exact List.pairwise_cons.2 ⟨fun e he => heq ▸ hd.1 e he, hd.2⟩
      · next hne =>
        refine List.pairwise_cons.2 ⟨fun e he => ?_, ih hd.2⟩
        rcases mem_insertEntry he with rfl | he
        · rcases Decidable.em (d.1 < key) with hlt | hge
          · exact hlt
          · exact absurd (String.le_antisymm (String.not_lt.1 hge) (String.not_lt.1 hnlt)) hne
        · exact hd.1 e he

/-- A map from texts to texts, its entries in strictly increasing order of keys. -/
@[ext] structure TextMap where
  entries : List (String × String)
  ordered : entries.Pairwise (·.1 < ·.1)
  deriving DecidableEq

namespace TextMap

/-- The map without entries. -/
def empty : TextMap := ⟨[], List.Pairwise.nil⟩

instance : EmptyCollection TextMap := ⟨empty⟩

instance : Inhabited TextMap := ⟨∅⟩

/-- The map with an entry added, or replaced where the key was present. -/
def insert (m : TextMap) (key value : String) : TextMap :=
  ⟨insertEntry key value m.entries, pairwise_insertEntry key value m.ordered⟩

/-- The entries whose key passes a test. -/
def filterKeys (m : TextMap) (keep : String → Bool) : TextMap :=
  ⟨m.entries.filter fun e => keep e.1, m.ordered.filter _⟩

/-- The map without a key. -/
def erase (m : TextMap) (key : String) : TextMap := m.filterKeys (· != key)

/-- The first entry whose key passes a test. -/
def findKey? (m : TextMap) (test : String → Bool) : Option (String × String) :=
  m.entries.find? fun e => test e.1

/-- The value of a key. -/
def get? (m : TextMap) (key : String) : Option String := (m.findKey? (· == key)).map (·.2)

/-- Whether a key is present. -/
def contains (m : TextMap) (key : String) : Bool := (m.get? key).isSome

/-- The map of a list of entries, the last of a key winning. -/
def ofList (es : List (String × String)) : TextMap :=
  es.foldl (fun m e => m.insert e.1 e.2) ∅

/-- The entries in order of keys. -/
def toList (m : TextMap) : List (String × String) := m.entries

@[simp] theorem toList_empty : (∅ : TextMap).toList = [] := rfl

@[simp] theorem toList_filterKeys (m : TextMap) (keep : String → Bool) :
    (m.filterKeys keep).toList = m.toList.filter fun e => keep e.1 := rfl

@[simp] theorem toList_insert (m : TextMap) (key value : String) :
    (m.insert key value).toList = insertEntry key value m.toList := rfl

/-- A listed entry is what its key maps to. -/
theorem get?_of_mem {m : TextMap} {key value : String} (h : (key, value) ∈ m.toList) :
    m.get? key = some value := by
  obtain ⟨es, hes⟩ := m
  simp only [toList, get?, findKey?] at *
  induction es with
  | nil => simp at h
  | cons d rest ih =>
    have hd := List.pairwise_cons.1 hes
    rcases List.mem_cons.1 h with rfl | h
    · simp
    · have hne : d.1 ≠ key := fun he => String.lt_irrefl _ (he ▸ hd.1 _ h)
      simp [hne, ih hd.2 h]

end TextMap

end HttpEngine
