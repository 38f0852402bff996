import HttpEngine.Proofs.Message.FieldLookup
import HttpEngine.Proofs.Message.Framed
import HttpEngine.Proofs.Text.Encoded
import HttpEngine.Proofs.Text.Numeral
import HttpEngine.Proofs.Text.Words
import Mathlib.Data.List.Forall2
/-!
# Responses that delimit themselves

The bytes of responses that are sent one behind the other tell the responses: where each ends, and
what it says (`Response.flatMap_encode_eq_iff`). That takes three things of a response. It has been
framed, so the length that it states is that of its body, whatever was set before. Its names hold no
colon and no carriage return. Its values hold no carriage return. Nothing is asked of the bodies,
which may look like responses.

A head is lines, each up to the first carriage return, and the first empty line ends it. So equal
bytes begin with equal lines; equal lines state equal lengths; and behind the heads, equal bytes
begin with bodies of equal lengths. The responses are told one by one from there.
-/

namespace HttpEngine

open Text

/-! ### Lines -/

namespace Text

/-- The bytes of a line with its ending. -/
def endedLine (line : List Char) : List UInt8 := Utf8.encode line ++ [13, 10]

variable {line line' : List Char} {lines lines' : List (List Char)} {x y : List UInt8}

/-- A line is told from what follows its first carriage return. -/
theorem endedLine_append_inj (h : '\r' ∉ line) (h' : '\r' ∉ line')
    (heq : endedLine line ++ x = endedLine line' ++ y) : line = line' ∧ x = y := by
  have hreturn : ∀ {line : List Char}, '\r' ∉ line → 13 ∉ Utf8.encode line := fun h =>
    mt (Utf8.mem_encode_iff (c := '\r') (by decide)).1 h
  simp only [endedLine, List.append_assoc, List.cons_append, List.nil_append] at heq
  obtain ⟨hline, hrest⟩ := append_cons_inj (hreturn h) (hreturn h') heq
  exact ⟨Utf8.encode_injective hline, (List.cons.inj hrest).2⟩

/-- The first empty line is told from the lines in front of it. -/
theorem endedLines_append_inj (h : ∀ line ∈ lines, line ≠ [] ∧ '\r' ∉ line)
    (h' : ∀ line ∈ lines', line ≠ [] ∧ '\r' ∉ line)
    (heq : lines.flatMap endedLine ++ (endedLine [] ++ x) =
      lines'.flatMap endedLine ++ (endedLine [] ++ y)) : lines = lines' ∧ x = y := by
  have hnil : '\r' ∉ ([] : List Char) := List.not_mem_nil
  induction lines generalizing lines' with
  | nil =>
    cases lines' with
    | nil => exact ⟨rfl, (endedLine_append_inj hnil hnil heq).2⟩
    | cons line' lines' =>
      obtain ⟨⟨hne, hline'⟩, -⟩ := List.forall_mem_cons.1 h'
      rw [List.flatMap_cons, List.append_assoc] at heq
      exact absurd (endedLine_append_inj hnil hline' heq).1.symm hne
  | cons line lines ih =>
    obtain ⟨⟨hne, hline⟩, hlines⟩ := List.forall_mem_cons.1 h
    cases lines' with
    | nil =>
      rw [List.flatMap_cons, List.append_assoc] at heq
      exact absurd (endedLine_append_inj hline hnil heq).1 hne
    | cons line' lines' =>
      obtain ⟨⟨-, hline'⟩, hlines'⟩ := List.forall_mem_cons.1 h'
      rw [List.flatMap_cons, List.flatMap_cons, List.append_assoc, List.append_assoc] at heq
      obtain ⟨rfl, hrest⟩ := endedLine_append_inj hline hline' heq
      obtain ⟨rfl, hbehind⟩ := ih hlines hlines' hrest
      exact ⟨rfl, hbehind⟩

end Text

namespace Response

/-- That a response can be told from what follows it. -/
structure Delimited (r : Response) : Prop where
  isFramed : ∃ draft : Response, r = draft.framed
  name_clean : ∀ f ∈ r.fields.toList, ':' ∉ f.1.toList ∧ '\r' ∉ f.1.toList
  value_clean : ∀ f ∈ r.fields.toList, '\r' ∉ f.2.toList

/-- That two responses say the same, their choices about the connection apart. -/
structure SameMessage (r s : Response) : Prop where
  version : r.version = s.version
  status : r.status = s.status
  fields : r.fields = s.fields
  body : r.body = s.body

variable {r s : Response} {f g : String × String} {fs gs : List (String × String)}
  {x y : List UInt8}

/-! ### The lines of a head -/

/-- The status line without its ending. -/
def statusText (r : Response) : List Char :=
  r.version.label.toList ++ ' ' :: ((decimal r.status.code).toList ++ ' ' :: r.status.reason.toList)

/-- A field line without its ending. -/
def fieldText (f : String × String) : List Char := f.1.toList ++ ':' :: ' ' :: f.2.toList

/-- The lines of a head. -/
def headLines (r : Response) : List (List Char) := r.statusText :: r.fields.toList.map fieldText

theorem encode_eq (r : Response) :
    r.encode = r.headLines.flatMap endedLine ++ (endedLine [] ++ r.body) := by
  have hending : Utf8.encode ['\r', '\n'] = [13, 10] := by decide
  have hstatus : Utf8.bytesOf r.statusLine = endedLine r.statusText := by
    rw [endedLine, ← hending, ← Utf8.encode_append, Utf8.bytesOf]
    simp [statusLine, statusText]
  have hfield : ∀ f, Utf8.bytesOf (fieldLine f) = endedLine (fieldText f) := by
    intro f
    rw [endedLine, ← hending, ← Utf8.encode_append, Utf8.bytesOf]
    simp [fieldLine, fieldText]
  have hblank : Utf8.bytesOf "\r\n" = endedLine [] := by decide
  rw [encode, hstatus, hblank, headLines, List.flatMap_cons, List.flatMap_map]
  simp only [hfield, List.append_assoc]

theorem statusText_inj (h : r.statusText = s.statusText) :
    r.version = s.version ∧ r.status = s.status := by
  have hlabel : ∀ v : Version, ' ' ∉ v.label.toList := fun v => by cases v <;> decide
  have hcode : ∀ n : Nat, ' ' ∉ (decimal n).toList := fun n hmem =>
    absurd (isDigit_of_mem_decimal hmem) (by decide)
  obtain ⟨hversion, hrest⟩ := append_cons_inj (hlabel _) (hlabel _) h
  obtain ⟨hstatus, -⟩ := append_cons_inj (hcode _) (hcode _) hrest
  constructor
  · rw [← Option.some_inj, ← Version.ofLabel?_label, ← Version.ofLabel?_label,
      String.toList_inj.1 hversion]
  · exact Status.code_injective (decimal_injective (String.toList_inj.1 hstatus))

theorem fieldText_inj (hf : ':' ∉ f.1.toList) (hg : ':' ∉ g.1.toList)
    (h : fieldText f = fieldText g) : f = g := by
  obtain ⟨hname, hrest⟩ := append_cons_inj hf hg h
  exact Prod.ext (String.toList_inj.1 hname) (String.toList_inj.1 (List.cons.inj hrest).2)

theorem map_fieldText_inj (hfs : ∀ f ∈ fs, ':' ∉ f.1.toList) (hgs : ∀ f ∈ gs, ':' ∉ f.1.toList)
    (h : fs.map fieldText = gs.map fieldText) : fs = gs := by
  induction fs generalizing gs with
  | nil => exact (List.map_eq_nil_iff.1 h.symm).symm
  | cons f fs ih =>
    cases gs with
    | nil => simp at h
    | cons g gs =>
      obtain ⟨hf, hfs⟩ := List.forall_mem_cons.1 hfs
      obtain ⟨hg, hgs⟩ := List.forall_mem_cons.1 hgs
      obtain ⟨hline, hlines⟩ := List.cons.inj h
      rw [fieldText_inj hf hg hline, ih hfs hgs hlines]

namespace Delimited

/-- A response that states the length of its body. -/
theorem field?_length (h : r.Delimited) :
    r.field? "Content-Length" = some (decimal r.body.length) := by
  obtain ⟨draft, rfl⟩ := h.isFramed
  rw [field?_length_framed, body_framed]

/-- No line of the head is empty or holds a carriage return. -/
theorem forall_headLines (h : r.Delimited) :
    ∀ line ∈ r.headLines, line ≠ [] ∧ '\r' ∉ line := by
  refine List.forall_mem_cons.2 ⟨⟨by simp [statusText], ?_⟩, ?_⟩
  · have hlabel : '\r' ∉ r.version.label.toList := by cases r.version <;> decide
    have hcode : '\r' ∉ (decimal r.status.code).toList := fun hmem =>
      absurd (isDigit_of_mem_decimal hmem) (by decide)
    have hreason : '\r' ∉ r.status.reason.toList := by cases r.status <;> decide
    simp [statusText, hlabel, hcode, hreason]
  · intro line hline
    obtain ⟨f, hf, rfl⟩ := List.mem_map.1 hline
    simp [fieldText, (h.name_clean f hf).2, h.value_clean f hf]

/-- **The first response.** Bytes that begin with a response tell it from what follows it. -/
theorem append_inj (hr : r.Delimited) (hs : s.Delimited)
    (heq : r.encode ++ x = s.encode ++ y) : r.SameMessage s ∧ x = y := by
  rw [encode_eq, encode_eq, List.append_assoc, List.append_assoc, List.append_assoc,
    List.append_assoc] at heq
  obtain ⟨hhead, hbehind⟩ := endedLines_append_inj hr.forall_headLines hs.forall_headLines heq
  obtain ⟨hstatus, hlines⟩ := List.cons.inj hhead
  obtain ⟨hversion, hstatus⟩ := statusText_inj hstatus
  have hfields : r.fields = s.fields := TextMap.ext (map_fieldText_inj
    (fun f hf => (hr.name_clean f hf).1) (fun f hf => (hs.name_clean f hf).1) hlines)
  have hlength : r.body.length = s.body.length := by
    refine decimal_injective (Option.some.inj ?_)
    rw [← hr.field?_length, ← hs.field?_length, field?, field?, hfields]
  obtain ⟨hbody, hrest⟩ := List.append_inj hbehind hlength
  exact ⟨⟨hversion, hstatus, hfields, hbody⟩, hrest⟩

end Delimited

theorem SameMessage.encode_eq (h : r.SameMessage s) : r.encode = s.encode := by
  rw [encode, encode, statusLine, statusLine, h.version, h.status, h.fields, h.body]

theorem encode_ne_nil (r : Response) : r.encode ≠ [] := by
  simp [Response.encode_eq, endedLine]

theorem flatMap_encode_congr {rs ss : List Response} (h : List.Forall₂ SameMessage rs ss) :
    rs.flatMap encode = ss.flatMap encode := by
  induction h with
  | nil => rfl
  | cons hsame _ ih => rw [List.flatMap_cons, List.flatMap_cons, hsame.encode_eq, ih]

/-- **Responses delimit themselves.** The bytes of responses, one behind the other, are equal just
if there are as many responses and they say the same one by one. -/
theorem flatMap_encode_eq_iff {rs ss : List Response} (hrs : ∀ r ∈ rs, r.Delimited)
    (hss : ∀ s ∈ ss, s.Delimited) :
    rs.flatMap encode = ss.flatMap encode ↔ List.Forall₂ SameMessage rs ss := by
  refine ⟨fun heq => ?_, flatMap_encode_congr⟩
  induction rs generalizing ss with
  | nil =>
    cases ss with
    | nil => exact .nil
    | cons s ss => exact absurd (List.append_eq_nil_iff.1 heq.symm).1 s.encode_ne_nil
  | cons r rs ih =>
    cases ss with
    | nil => exact absurd (List.append_eq_nil_iff.1 heq).1 r.encode_ne_nil
    | cons s ss =>
      obtain ⟨hr, hrs⟩ := List.forall_mem_cons.1 hrs
      obtain ⟨hs, hss⟩ := List.forall_mem_cons.1 hss
      obtain ⟨hsame, hrest⟩ := hr.append_inj hs heq
      exact .cons hsame (ih hrs hss hrest)

/-- A response whose body is the beginning of a response, framed after another length was set. -/
def nested (length : String) (persistence : Option Bool) : Response :=
  framed
    { status := .ok
      fields := TextMap.ofList [("content-LENGTH", length), ("X-Odd", ": a\nb")]
      body := Utf8.bytesOf "HTTP/1.0 404 Not Found\r\nContent-Length: 0\r\n\r\n"
      persistence }

/-- Two such responses, made in two ways. -/
theorem flatMap_encode_nested :
    (∀ r ∈ [nested "0" none, nested "7" (some false)], r.Delimited) ∧
      (∀ s ∈ [nested "999" (some true), nested "" (some false)], s.Delimited) ∧
      [nested "0" none, nested "7" (some false)].flatMap encode =
        [nested "999" (some true), nested "" (some false)].flatMap encode ∧
      List.Forall₂ SameMessage [nested "0" none, nested "7" (some false)]
        [nested "999" (some true), nested "" (some false)] := by
  have hrs : ∀ r ∈ [nested "0" none, nested "7" (some false)], r.Delimited := by
    refine List.forall_mem_cons.2 ⟨⟨⟨_, rfl⟩, by decide, by decide⟩, List.forall_mem_singleton.2 ?_⟩
    exact ⟨⟨_, rfl⟩, by decide, by decide⟩
  have hss : ∀ s ∈ [nested "999" (some true), nested "" (some false)], s.Delimited := by
    refine List.forall_mem_cons.2 ⟨⟨⟨_, rfl⟩, by decide, by decide⟩, List.forall_mem_singleton.2 ?_⟩
    exact ⟨⟨_, rfl⟩, by decide, by decide⟩
  have hbytes : [nested "0" none, nested "7" (some false)].flatMap encode =
      [nested "999" (some true), nested "" (some false)].flatMap encode := by decide +kernel
  exact ⟨hrs, hss, hbytes, (flatMap_encode_eq_iff hrs hss).1 hbytes⟩

end Response

end HttpEngine
