import HttpEngine.Intake.Head
import HttpEngine.Proofs.Text.Lines
import HttpEngine.Proofs.Text.MapLookup
import HttpEngine.Proofs.Text.Numeral
/-!
# Heads as they are sent

A request is **sent** (`SentRequest`) as a request line, a line for each field, a line that states
the length of its body, an empty line, and the body. What can be sent in this way is carried by the
structures: the target is one word, a name is one word without a colon, a value stands on one line
and has no blanks at its ends, no two names agree up to case, and none of them frames the body. The
length may be left out where the body is empty. A value may hold colons and carriage returns.

The head of a sent request is read as what was sent (`SentRequest.parse_headText`), with either line
ending: no line is empty or ends with a carriage return of its own, so the lines of the text are the
lines that were sent, and each of them is read as its field.
-/

namespace HttpEngine

open Text

/-- The two ways in which the lines of a head may end. -/
inductive LineEnding where
  | crlf
  | lf
  deriving DecidableEq, Repr

/-- The characters of a line ending. -/
def LineEnding.chars : LineEnding → List Char
  | .crlf => ['\r', '\n']
  | .lf => ['\n']

/-! ### Lines that are put together -/

namespace Text

/-- That a text can stand on a line that is not empty, whatever ends the line. -/
structure IsLine (line : List Char) : Prop where
  ne_nil : line ≠ []
  not_mem : '\n' ∉ line
  getLast_ne : line.getLast? ≠ some '\r'

variable {line : List Char}

theorem IsLine.lines_eq (h : IsLine line) : lines line = [line] := by
  rw [lines_of_not_mem h.not_mem, if_neg (by simpa using h.ne_nil)]

/-- A line is split off with its ending. -/
theorem IsLine.lines_append (h : IsLine line) (e : LineEnding) (rest : List Char) :
    lines (line ++ (e.chars ++ rest)) = line :: lines rest := by
  cases e with
  | crlf =>
    have hmem : '\n' ∉ line ++ ['\r'] := by simpa using h.not_mem
    have hdrop : dropReturn (line ++ ['\r']) = line := by simp [dropReturn]
    have hsplit : line ++ (LineEnding.crlf.chars ++ rest) = (line ++ ['\r']) ++ '\n' :: rest := by
      simp [LineEnding.chars]
    rw [hsplit, lines_append_cons, List.splitOn_eq_singleton hmem, List.map_singleton, hdrop,
      List.singleton_append]
  | lf =>
    have hdrop : dropReturn line = line := if_neg h.getLast_ne
    have hsplit : line ++ (LineEnding.lf.chars ++ rest) = line ++ '\n' :: rest := rfl
    rw [hsplit, lines_append_cons, List.splitOn_eq_singleton h.not_mem, List.map_singleton, hdrop,
      List.singleton_append]

/-- Lines with endings between them, and none behind the last. -/
def joinLines (e : LineEnding) (first : List Char) (rest : List (List Char)) : List Char :=
  first ++ rest.flatMap fun line => e.chars ++ line

theorem joinLines_cons (e : LineEnding) (first second : List Char) (rest : List (List Char)) :
    joinLines e first (second :: rest) = first ++ (e.chars ++ joinLines e second rest) := by
  simp [joinLines]

/-- An ending behind the last line is one behind every line. -/
theorem joinLines_append (e : LineEnding) (first : List Char) (rest : List (List Char)) :
    joinLines e first rest ++ e.chars =
      first ++ e.chars ++ rest.flatMap fun line => line ++ e.chars := by
  induction rest generalizing first with
  | nil => simp [joinLines]
  | cons second rest ih =>
    rw [joinLines_cons, List.append_assoc, List.append_assoc, ih]
    simp

/-- **Lines that are joined are found.** -/
theorem lines_joinLines (e : LineEnding) {first : List Char} {rest : List (List Char)}
    (hfirst : IsLine first) (hrest : ∀ line ∈ rest, IsLine line) :
    lines (joinLines e first rest) = first :: rest := by
  induction rest generalizing first with
  | nil =>
    rw [joinLines, List.flatMap_nil, List.append_nil]
    exact hfirst.lines_eq
  | cons second rest ih =>
    obtain ⟨hsecond, hrest⟩ := List.forall_mem_cons.1 hrest
    rw [joinLines_cons, hfirst.lines_append, ih hsecond hrest]

/-- Joined lines end as the last of them does. -/
theorem getLast?_joinLines (e : LineEnding) {first : List Char} {rest : List (List Char)}
    (hfirst : IsLine first) (hrest : ∀ line ∈ rest, IsLine line) :
    ∃ line, IsLine line ∧ (joinLines e first rest).getLast? = line.getLast? := by
  induction rest generalizing first with
  | nil => exact ⟨first, hfirst, by simp [joinLines]⟩
  | cons second rest ih =>
    obtain ⟨hsecond, hrest⟩ := List.forall_mem_cons.1 hrest
    obtain ⟨line, hline, hlast⟩ := ih hsecond hrest
    refine ⟨line, hline, ?_⟩
    have hsome : line.getLast? ≠ none := mt List.getLast?_eq_none_iff.1 hline.ne_nil
    obtain ⟨c, hc⟩ := Option.ne_none_iff_exists'.1 hsome
    rw [joinLines_cons, List.getLast?_append, List.getLast?_append, hlast, hc]
    rfl

end Text

/-! ### Fields that are sent -/

/-- A field that can be sent. -/
structure SentField where
  name : String
  value : String
  name_ne : name ≠ ""
  name_unbroken : Unbroken name.toList
  name_no_colon : ':' ∉ name.toList
  value_no_newline : '\n' ∉ value.toList
  value_trimmed : trim value.toList = value.toList

namespace SentField

/-- The name and the value of a field. -/
def entry (f : SentField) : String × String := (f.name, f.value)

/-- The line of a field. -/
def line (f : SentField) : List Char := f.name.toList ++ ':' :: ' ' :: f.value.toList

variable (f : SentField)

theorem isLine_line : IsLine f.line where
  ne_nil := by simp [line]
  not_mem := by
    have hname : '\n' ∉ f.name.toList := fun h => absurd (f.name_unbroken _ h) (by decide)
    have hvalue := f.value_no_newline
    simp [line, hname, hvalue]
  getLast_ne := by
    rw [line, List.getLast?_append, List.getLast?_cons_cons]
    cases hvalue : f.value.toList with
    | nil => simp
    | cons c cs =>
      have hlast := getLast?_of_trim f.value_trimmed (by decide : isBlank '\r' = true)
      rw [hvalue] at hlast
      rw [List.getLast?_cons_cons]
      simpa using hlast

/-- The line of a field is read as the field. -/
theorem fieldLine_line : Head.fieldLine f.line = .ok f.entry := by
  have hblank : f.name.toList.any isBlank = false := by
    simpa [Unbroken] using f.name_unbroken
  have hne : f.name.toList.isEmpty = false := by simpa using f.name_ne
  rw [Head.fieldLine, line, cutAt_append_cons f.name_no_colon]
  simp only [trim_of_unbroken f.name_unbroken, hblank, hne,
    trim_cons_of_blank (by decide : isBlank ' ' = true), f.value_trimmed, String.ofList_toList]
  rfl

/-- The lines of fields whose names are new and distinct are read as the fields, in their order. -/
theorem readFields_lines {fs : Fields} {ls : List SentField}
    (hdistinct : ls.Pairwise fun a b => sameFolded a.name b.name = false)
    (hnew : ∀ f ∈ ls, fs.value? f.name = none) :
    Head.readFields fs (ls.map line) =
      .ok ((ls.map entry).foldl (fun fs e => fs.insert e.1 e.2) fs) := by
  induction ls generalizing fs with
  | nil => rfl
  | cons f ls ih =>
    obtain ⟨hf, hdistinct⟩ := List.pairwise_cons.1 hdistinct
    obtain ⟨hfnew, hnew⟩ := List.forall_mem_cons.1 hnew
    have hrest : ∀ g ∈ ls, Fields.value? (fs.insert f.name f.value) g.name = none := by
      intro g hg
      rw [Fields.value?_insert_of_ne (hf g hg)]
      exact hnew g hg
    have hempty : ¬ f.line.isEmpty = true := by simpa using f.isLine_line.ne_nil
    rw [List.map_cons, Head.readFields, if_neg hempty, fieldLine_line]
    simp only [entry, Head.addField, hfnew]
    exact ih hdistinct hrest

/-- The field that states the length of a body. -/
def ofLength (n : Nat) : SentField where
  name := Head.lengthName
  value := decimal n
  name_ne := by decide
  name_unbroken := by decide
  name_no_colon := by decide
  value_no_newline h := absurd (unbroken_decimal n _ h) (by decide)
  value_trimmed := trim_of_unbroken (unbroken_decimal n)

end SentField

/-! ### Requests that are sent -/

/-- A request that can be sent with a body of a stated length. -/
structure SentRequest where
  method : Method
  target : String
  version : Version
  fields : List SentField
  body : List UInt8
  /-- Whether the length of the body is stated. -/
  statesLength : Bool
  target_ne : target ≠ ""
  target_unbroken : Unbroken target.toList
  distinct : fields.Pairwise fun a b => sameFolded a.name b.name = false
  not_framing : ∀ f ∈ fields,
    sameFolded f.name Head.lengthName = false ∧ sameFolded f.name Head.codingName = false
  /-- The size of every body in memory is a word. -/
  length_body : body.length < wordSize
  states_body : statesLength = false → body = []

namespace SentRequest

variable (m : SentRequest)

/-- All fields that are sent. -/
def allFields : List SentField :=
  m.fields ++ if m.statesLength then [.ofLength m.body.length] else []

/-- What is sent, before the body. -/
def opened : Request where
  method := m.method
  target := m.target
  version := m.version
  fields := TextMap.ofList (m.allFields.map SentField.entry)

/-- What is sent. -/
def request : Request := { m.opened with body := m.body }

/-- The request line. -/
def requestLine : List Char :=
  m.method.token.toList ++ ' ' :: (m.target.toList ++ ' ' :: m.version.label.toList)

/-- The text up to the empty line, and with it. -/
def head (e : LineEnding) : List Char :=
  m.requestLine ++ e.chars ++ (m.allFields.flatMap fun f => f.line ++ e.chars) ++ e.chars

/-- The bytes of a request. -/
def render (e : LineEnding) : List UInt8 := Utf8.encode (m.head e) ++ m.body

/-- The text up to the empty line, without the ending of the last line. -/
def headText (e : LineEnding) : List Char :=
  joinLines e m.requestLine (m.allFields.map SentField.line)

theorem head_eq (e : LineEnding) : m.head e = m.headText e ++ (e.chars ++ e.chars) := by
  rw [headText, ← List.append_assoc, joinLines_append, List.flatMap_map, head]

/-! ### Its request line -/

theorem isLine_requestLine : IsLine m.requestLine where
  ne_nil := by simp [requestLine]
  not_mem := by
    have hmethod : '\n' ∉ m.method.token.toList := by cases m.method <;> decide
    have htarget : '\n' ∉ m.target.toList := fun h => absurd (m.target_unbroken _ h) (by decide)
    have hversion : '\n' ∉ m.version.label.toList := by cases m.version <;> decide
    simp [requestLine, hmethod, htarget, hversion]
  getLast_ne := by
    rw [requestLine, List.getLast?_append, List.getLast?_cons, List.getLast?_append]
    cases m.version <;> simp [Version.label]

/-- The request line is read as the method, the target and the version. -/
theorem requestLine_requestLine :
    Head.requestLine m.requestLine = .ok (m.method, m.target, m.version) := by
  have hmethod : Unbroken m.method.token.toList := by cases m.method <;> decide
  have hmethod_ne : m.method.token.toList ≠ [] := by cases m.method <;> decide
  have hversion : Unbroken m.version.label.toList := by cases m.version <;> decide
  have hversion_ne : m.version.label.toList ≠ [] := by cases m.version <;> decide
  have htarget_ne : m.target.toList ≠ [] := by simpa using m.target_ne
  have hwords : words m.requestLine =
      [m.method.token.toList, m.target.toList, m.version.label.toList] := by
    rw [requestLine, words_append_cons hmethod hmethod_ne (by decide),
      words_append_cons m.target_unbroken htarget_ne (by decide),
      words_of_unbroken hversion hversion_ne]
  rw [Head.requestLine, hwords]
  simp only [String.ofList_toList, Method.ofToken?_token, Version.ofLabel?_label]

/-! ### Its fields -/

theorem mem_allFields {f : SentField} (h : f ∈ m.allFields) :
    f ∈ m.fields ∨ (m.statesLength = true ∧ f = .ofLength m.body.length) := by
  rw [allFields, List.mem_append] at h
  refine h.imp_right fun h => ?_
  split at h
  · next hstates => exact ⟨hstates, List.mem_singleton.1 h⟩
  · simp at h

/-- The field of the length is another one. -/
theorem distinct_allFields :
    m.allFields.Pairwise fun a b => sameFolded a.name b.name = false := by
  rw [allFields, List.pairwise_append]
  refine ⟨m.distinct, ?_, fun f hf g hg => ?_⟩
  · split
    · exact List.pairwise_singleton _ _
    · exact .nil
  · split at hg
    · obtain rfl := List.mem_singleton.1 hg
      exact (m.not_framing f hf).1
    · simp at hg

/-- No field is lost, and each keeps its spelling. -/
theorem perm_fields : m.opened.fields.toList.Perm (m.allFields.map SentField.entry) := by
  refine TextMap.perm_ofList (List.pairwise_map.2 (m.distinct_allFields.imp fun {f g} h heq => ?_))
  have hname : f.name = g.name := heq
  rw [hname, sameFolded_refl] at h
  simp at h

theorem value?_codingName : m.opened.fields.value? Head.codingName = none := by
  refine Fields.value?_eq_none_iff.2 (Fields.field?_ofList_eq_none_iff.2 fun e he => ?_)
  obtain ⟨f, hf, rfl⟩ := List.mem_map.1 he
  rcases m.mem_allFields hf with hf | ⟨-, rfl⟩
  · exact (m.not_framing f hf).2
  · exact (by decide : sameFolded Head.lengthName Head.codingName = false)

/-- The length is found if it is stated. -/
theorem value?_lengthName : m.opened.fields.value? Head.lengthName =
    if m.statesLength then some (decimal m.body.length) else none := by
  have hnone : Fields.value? (TextMap.ofList (m.fields.map SentField.entry)) Head.lengthName =
      none := by
    refine Fields.value?_eq_none_iff.2 (Fields.field?_ofList_eq_none_iff.2 fun e he => ?_)
    obtain ⟨f, hf, rfl⟩ := List.mem_map.1 he
    exact (m.not_framing f hf).1
  rw [opened, allFields]
  split
  · simp only [List.map_append, List.map_singleton, TextMap.ofList_append_singleton]
    exact Fields.value?_insert hnone (sameFolded_refl _)
  · simpa only [List.append_nil] using hnone

/-- The fields declare the length of the body. -/
theorem ofFields_opened : Framing.ofFields m.opened.fields = .ok (.length m.body.length) := by
  rw [Framing.ofFields, m.value?_codingName, m.value?_lengthName]
  cases hstates : m.statesLength with
  | true =>
    have hnumeral : readNumeral 10 (trim (decimal m.body.length).toList) = some m.body.length := by
      rw [trim_of_unbroken (unbroken_decimal _), readNumeral_decimal m.length_body]
    simp only [if_true, hnumeral]
  | false => simp [m.states_body hstates]

/-! ### Its head -/

theorem isLine_of_mem {line : List Char} (h : line ∈ m.allFields.map SentField.line) :
    IsLine line := by
  obtain ⟨f, -, rfl⟩ := List.mem_map.1 h
  exact f.isLine_line

theorem lines_headText (e : LineEnding) :
    lines (m.headText e) = m.requestLine :: m.allFields.map SentField.line :=
  lines_joinLines e m.isLine_requestLine fun _ => m.isLine_of_mem

/-- **A head that is sent is read as what was sent.** -/
theorem parse_headText (e : LineEnding) : Head.parse (m.headText e) = .ok m.opened := by
  have hfields : Head.readFields ∅ (m.allFields.map SentField.line) = .ok m.opened.fields :=
    SentField.readFields_lines m.distinct_allFields fun _ _ => rfl
  rw [Head.parse, lines_headText]
  simp only [requestLine_requestLine, hfields]
  rfl

end SentRequest

end HttpEngine
