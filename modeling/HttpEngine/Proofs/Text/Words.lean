import HttpEngine.Text.Blank
import HttpEngine.Text.Split
import Mathlib.Data.List.TakeWhile
/-!
# Words and pieces that were put together

A text is **unbroken** if no blank is in it. Trimming leaves an unbroken text as it is, an unbroken
text in front of a blank is a word, and a text that lacks a separator is cut off by the first one
behind it.
-/

namespace HttpEngine.Text

variable {cs rest word : List Char} {c : Char}

/-- That no blank is in a text. -/
def Unbroken (cs : List Char) : Prop := ∀ c ∈ cs, isBlank c = false

instance (cs : List Char) : Decidable (Unbroken cs) :=
  decidable_of_iff (cs.all fun c => !isBlank c) (by simp [Unbroken])

/-! ### Trimming -/

theorem dropWhile_of_unbroken (h : Unbroken cs) : cs.dropWhile isBlank = cs := by
  refine List.dropWhile_eq_self_iff.2 fun hpos => ?_
  simp [h _ (List.getElem_mem hpos)]

theorem trim_of_unbroken (h : Unbroken cs) : trim cs = cs := by
  have hback : Unbroken cs.reverse := fun c hc => h c (List.mem_reverse.1 hc)
  rw [trim, trimStart, trimEnd, dropWhile_of_unbroken h, dropWhile_of_unbroken hback,
    List.reverse_reverse]

theorem trim_cons_of_blank (h : isBlank c = true) : trim (c :: cs) = trim cs := by
  rw [trim, trim, trimStart, trimStart, List.dropWhile_cons_of_pos h]

/-- A text that trimming leaves as it is does not end with a blank. -/
theorem getLast?_of_trim (h : trim cs = cs) (hc : isBlank c = true) : cs.getLast? ≠ some c := by
  intro hlast
  have hback : trimEnd (trimStart cs) = cs := h
  rw [trimEnd] at hback
  rw [← hback, List.getLast?_reverse] at hlast
  have hhead := List.head?_dropWhile_not isBlank (trimStart cs).reverse
  rw [hlast] at hhead
  simp [hc] at hhead

/-! ### Words -/

theorem words_of_unbroken (h : Unbroken word) (hne : word ≠ []) : words word = [word] := by
  rw [words, List.splitOnP_eq_singleton h]
  simp [hne]

/-- **The first word.** An unbroken text in front of a blank is the first word. -/
theorem words_append_cons (h : Unbroken word) (hne : word ≠ []) (hc : isBlank c = true)
    (rest : List Char) : words (word ++ c :: rest) = word :: words rest := by
  rw [words, List.splitOnP_append_cons_of_forall_mem h c hc, words, List.filter_cons_of_pos]
  simp [hne]

/-! ### Pieces -/

/-- Texts that lack a separator are told apart from what it separates them from. -/
theorem append_cons_inj {α : Type} {a : α} {front front' rest rest' : List α} (h : a ∉ front)
    (h' : a ∉ front') (heq : front ++ a :: rest = front' ++ a :: rest') :
    front = front' ∧ rest = rest' := by
  induction front generalizing front' with
  | nil =>
    cases front' with
    | nil => exact ⟨rfl, (List.cons.inj heq).2⟩
    | cons b front' => exact absurd ((List.cons.inj heq).1 ▸ List.mem_cons_self) h'
  | cons b front ih =>
    cases front' with
    | nil => exact absurd ((List.cons.inj heq).1 ▸ List.mem_cons_self) h
    | cons b' front' =>
      obtain ⟨rfl, htail⟩ := List.cons.inj heq
      obtain ⟨rfl, hrest⟩ := ih (fun hmem => h (List.mem_cons_of_mem b hmem))
        (fun hmem => h' (List.mem_cons_of_mem b hmem)) htail
      exact ⟨rfl, hrest⟩

/-- **The first piece.** A text that lacks a separator is cut off by the first one behind it. -/
theorem cutAt_append_cons (h : c ∉ cs) (rest : List Char) :
    cutAt c (cs ++ c :: rest) = some (cs, rest) := by
  have hall : ∀ d ∈ cs, (d != c) = true := by
    intro d hd
    simpa using fun heq : d = c => h (heq ▸ hd)
  have hdrop : (cs ++ c :: rest).dropWhile (· != c) = c :: rest := by
    rw [List.dropWhile_append_of_pos hall, List.dropWhile_cons_of_neg (by simp)]
  have htake : (cs ++ c :: rest).takeWhile (· != c) = cs := by
    rw [List.takeWhile_append_of_pos hall, List.takeWhile_cons_of_neg (by simp), List.append_nil]
  rw [cutAt, hdrop, htake]

end HttpEngine.Text
