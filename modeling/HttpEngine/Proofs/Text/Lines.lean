import HttpEngine.Text.Split
import Mathlib.Data.List.Infix
/-!
# Empty lines

The lines of a text are found piece by piece: a line feed ends one, and what follows it has its own
lines (`lines_append_cons`). So an empty line shows in the characters: two line feeds, or two with
one carriage return between them, where the text counts as if a line feed stood in front of it
(`nil_mem_lines_iff`). A carriage return at the very end of a text is a line and not an empty one.
-/

namespace HttpEngine.Text

/-! ### Patterns -/

/-- A pattern does not begin among elements that are not its first one. -/
theorem cons_infix_append_iff {α : Type} {a : α} {pattern front rest : List α} (h : a ∉ front) :
    a :: pattern <:+: front ++ rest ↔ a :: pattern <:+: rest := by
  induction front with
  | nil => rfl
  | cons b front ih =>
    obtain ⟨hb, hfront⟩ := not_or.1 (mt List.mem_cons.2 h)
    rw [List.cons_append, List.infix_cons_iff, ih hfront, List.cons_prefix_cons]
    exact or_iff_right fun hstarts => hb hstarts.1

/-! ### Lines -/

/-- Pieces in front of others were all ended by a line feed. -/
theorem linesOfPieces_append (ps : List (List Char)) {qs : List (List Char)} (h : qs ≠ []) :
    linesOfPieces (ps ++ qs) = ps.map dropReturn ++ linesOfPieces qs := by
  induction ps with
  | nil => rfl
  | cons p ps ih =>
    have hne : ps ++ qs ≠ [] := fun hnil => h (List.append_eq_nil_iff.1 hnil).2
    obtain ⟨r, rs, hrs⟩ := List.exists_cons_of_ne_nil hne
    rw [List.cons_append, List.map_cons, List.cons_append, ← ih, hrs, linesOfPieces]
    exact List.cons_ne_nil r rs

/-- **Lines split at a line feed.** -/
theorem lines_append_cons (cs rest : List Char) :
    lines (cs ++ '\n' :: rest) = (cs.splitOn '\n').map dropReturn ++ lines rest := by
  rw [lines, List.splitOn_append_cons_self, linesOfPieces_append _ (List.splitOn_ne_nil _ _), lines]

/-- A text without a line feed is a line unless it is empty. -/
theorem lines_of_not_mem {cs : List Char} (h : '\n' ∉ cs) :
    lines cs = if cs.isEmpty then [] else [cs] := by
  rw [lines, List.splitOn_eq_singleton h, linesOfPieces]

theorem lines_eq_nil_iff {cs : List Char} : lines cs = [] ↔ cs = [] := by
  constructor
  · intro h
    by_cases hmem : '\n' ∈ cs
    · obtain ⟨front, rest, rfl, -⟩ := List.eq_append_cons_of_mem hmem
      rw [lines_append_cons, List.append_eq_nil_iff, List.map_eq_nil_iff] at h
      exact absurd h.1 (List.splitOn_ne_nil _ _)
    · rw [lines_of_not_mem hmem] at h
      split at h
      · next hnil => exact List.isEmpty_iff.1 hnil
      · simp at h
  · rintro rfl
    exact lines_nil

/-- What is left of a line is nothing if nothing or one carriage return was there. -/
theorem dropReturn_eq_nil_iff {line : List Char} :
    dropReturn line = [] ↔ line = [] ∨ line = ['\r'] := by
  rw [dropReturn]
  split
  · next hlast =>
    obtain ⟨front, rfl⟩ := List.getLast?_eq_some_iff.1 hlast
    simp
  · next hlast =>
    refine ⟨.inl, ?_⟩
    rintro (rfl | rfl)
    · rfl
    · simp at hlast

/-- A pattern of lines begins at the first line, or not before the next. -/
theorem infix_newline_append_iff {front : List Char} (h : '\n' ∉ front)
    (pattern rest : List Char) :
    '\n' :: pattern <:+: '\n' :: (front ++ '\n' :: rest) ↔
      pattern <+: front ++ '\n' :: rest ∨ '\n' :: pattern <:+: '\n' :: rest := by
  rw [List.infix_cons_iff, List.cons_prefix_cons, cons_infix_append_iff h, and_iff_right rfl]

/-- A pattern of lines does not lie in a line that nothing ends. -/
theorem not_infix_newline_of_not_mem {cs pattern : List Char} (h : '\n' ∉ cs)
    (hpattern : '\n' ∈ pattern) : ¬ '\n' :: pattern <:+: '\n' :: cs := by
  rw [List.infix_cons_iff, List.cons_prefix_cons]
  rintro (⟨-, hstarts⟩ | hlies)
  · exact h (hstarts.subset hpattern)
  · exact h (hlies.subset List.mem_cons_self)

/-- **Empty lines show.** A text has an empty line exactly if two line feeds follow each other, at
most one carriage return between them, where one line feed may be put before the text. -/
theorem nil_mem_lines_iff {cs : List Char} :
    [] ∈ lines cs ↔ ['\n', '\n'] <:+: '\n' :: cs ∨ ['\n', '\r', '\n'] <:+: '\n' :: cs := by
  induction hlen : cs.length using Nat.strong_induction_on generalizing cs with
  | _ n ih =>
    by_cases hmem : '\n' ∈ cs
    · obtain ⟨front, rest, rfl, hfront⟩ := List.eq_append_cons_of_mem hmem
      have hshort : rest.length < n := by
        rw [← hlen, List.length_append, List.length_cons]
        omega
      -- the first two line feeds are those around the first line
      have htwo : ['\n'] <+: front ++ '\n' :: rest ↔ front = [] := by
        cases front with
        | nil => simp
        | cons c front =>
          have hc : '\n' ≠ c := fun h => hfront (h ▸ List.mem_cons_self)
          simp [hc]
      have hthree : ['\r', '\n'] <+: front ++ '\n' :: rest ↔ front = ['\r'] := by
        rcases front with - | ⟨c, - | ⟨d, front⟩⟩
        · simp
        · simp [eq_comm]
        · have hd : '\n' ≠ d := fun h =>
            hfront (h ▸ List.mem_cons_of_mem _ List.mem_cons_self)
          simp [hd]
      rw [lines_append_cons, List.splitOn_eq_singleton hfront, List.map_singleton,
        List.singleton_append, List.mem_cons, ih _ hshort rfl, eq_comm, dropReturn_eq_nil_iff,
        infix_newline_append_iff hfront, infix_newline_append_iff hfront, htwo, hthree]
      exact or_or_or_comm
    · have hlines : [] ∉ lines cs := by
        rw [lines_of_not_mem hmem]
        split
        · exact List.not_mem_nil
        · next hne => simpa using hne
      refine iff_of_false hlines ?_
      rintro (hlies | hlies)
      · exact not_infix_newline_of_not_mem hmem (by simp) hlies
      · exact not_infix_newline_of_not_mem hmem (by simp) hlies

end HttpEngine.Text
