import HttpEngine.Target.Basic
/-!
# Path templates

A route's path is a **template**: its segments are either parameters, written `:name` with a
non-empty name, or literals. A literal matches the segment that it spells once percent-decoded,
or its own spelling if it cannot be decoded; a lone `:` is a literal. A parameter matches any
segment that is not empty and binds its name to it; where a name occurs twice the later segment
is bound.

A template is made once, segment by segment, and is matched often. It keeps the text of every
segment, and the positions of the literals apart from the positions and names of the parameters.
Matching goes through the literals first and binds the parameters only if all of them match. Both
passes look segments up by position, in the template and in the request. `bind?` has a result only
if these positions exist, and `bind?_isSome` says that they always do: a template carries that its
positions lie inside it, and segments are looked up only where there are as many as it has.
-/

namespace HttpEngine

/-- A parameter of a template. -/
structure TemplateParam where
  position : Nat
  name : String
  deriving DecidableEq, Repr

/-- A template. -/
structure Template where
  /-- The text of each segment, percent-decoded where it can be. -/
  texts : List String
  /-- The positions of the literals. -/
  literals : List Nat
  params : List TemplateParam
  literals_lt : ∀ i ∈ literals, i < texts.length
  params_lt : ∀ p ∈ params, p.position < texts.length

namespace Template

/-! ### Templates of paths -/

/-- The name of the parameter that a segment of a path spells, if it spells one. -/
def paramName? (part : String) : Option String :=
  match part.toList with
  | ':' :: c :: name => some (String.ofList (c :: name))
  | _ => none

/-- The text that a segment of a path spells. -/
def textOf (part : String) : String :=
  match Percent.decode part.toList with
  | .ok text => String.ofList text
  | .error _ => part

/-- The template without segments. -/
def empty : Template := ⟨[], [], [], by simp, by simp⟩

/-- The template with a literal behind its segments. -/
def pushLiteral (t : Template) (text : String) : Template where
  texts := t.texts ++ [text]
  literals := t.literals ++ [t.texts.length]
  params := t.params
  literals_lt i hi := by
    rw [List.length_append, List.length_singleton]
    rcases List.mem_append.1 hi with hi | hi
    · exact Nat.lt_succ_of_lt (t.literals_lt i hi)
    · exact List.mem_singleton.1 hi ▸ Nat.lt_succ_self _
  params_lt p hp := by
    rw [List.length_append, List.length_singleton]
    exact Nat.lt_succ_of_lt (t.params_lt p hp)

/-- The template with a parameter behind its segments. -/
def pushParam (t : Template) (text name : String) : Template where
  texts := t.texts ++ [text]
  literals := t.literals
  params := t.params ++ [⟨t.texts.length, name⟩]
  literals_lt i hi := by
    rw [List.length_append, List.length_singleton]
    exact Nat.lt_succ_of_lt (t.literals_lt i hi)
  params_lt p hp := by
    rw [List.length_append, List.length_singleton]
    rcases List.mem_append.1 hp with hp | hp
    · exact Nat.lt_succ_of_lt (t.params_lt p hp)
    · exact List.mem_singleton.1 hp ▸ Nat.lt_succ_self _

/-- The template with a segment of a path behind its segments. -/
def push (t : Template) (part : String) : Template :=
  match paramName? part with
  | some name => t.pushParam (textOf part) name
  | none => t.pushLiteral (textOf part)

/-- The template that segments of a path make up. -/
def ofParts (parts : List String) : Template := parts.foldl push empty

/-- The template that a route's path denotes. -/
def ofPath (path : String) : Template := ofParts (pathSegments path)

/-! ### Matching -/

/-- Whether texts and segments agree at each of some positions; there is no result if a position
that is looked up does not exist. -/
def agreeAt? (texts segments : List String) : List Nat → Option Bool
  | [] => some true
  | i :: positions =>
    match texts[i]?, segments[i]? with
    | some text, some segment =>
      if text = segment then agreeAt? texts segments positions else some false
    | _, _ => none

/-- Binds parameters to the segments at their positions, in addition to those that are bound. Inside
the result is nothing if such a segment is empty; there is no result if a position that is looked up
does not exist. -/
def bindFrom? (segments : List String) (bound : TextMap) :
    List TemplateParam → Option (Option TextMap)
  | [] => some (some bound)
  | p :: ps =>
    match segments[p.position]? with
    | some segment =>
      if segment.isEmpty then some none
      else bindFrom? segments (bound.insert p.name segment) ps
    | none => none

/-- The parameters that a template binds when it matches segments; there is no result if a position
that is looked up does not exist. -/
def bind? (t : Template) (segments : List String) : Option (Option TextMap) :=
  if t.texts.length = segments.length then
    match agreeAt? t.texts segments t.literals with
    | some true => bindFrom? segments ∅ t.params
    | some false => some none
    | none => none
  else some none

theorem agreeAt?_isSome {texts segments : List String} {positions : List Nat}
    (ht : ∀ i ∈ positions, i < texts.length) (hs : ∀ i ∈ positions, i < segments.length) :
    (agreeAt? texts segments positions).isSome := by
  induction positions with
  | nil => rfl
  | cons i positions ih =>
    obtain ⟨hti, ht⟩ := List.forall_mem_cons.1 ht
    obtain ⟨hsi, hs⟩ := List.forall_mem_cons.1 hs
    simp only [agreeAt?, List.getElem?_eq_getElem hti, List.getElem?_eq_getElem hsi]
    split
    · exact ih ht hs
    · rfl

theorem bindFrom?_isSome {segments : List String} {ps : List TemplateParam}
    (h : ∀ p ∈ ps, p.position < segments.length) (bound : TextMap) :
    (bindFrom? segments bound ps).isSome := by
  induction ps generalizing bound with
  | nil => rfl
  | cons p ps ih =>
    obtain ⟨hp, hps⟩ := List.forall_mem_cons.1 h
    simp only [bindFrom?, List.getElem?_eq_getElem hp]
    split
    · rfl
    · exact ih hps _

/-- Every position that matching looks up exists. -/
theorem bind?_isSome (t : Template) (segments : List String) : (t.bind? segments).isSome := by
  unfold bind?
  split
  · next hlength =>
    have hagree := agreeAt?_isSome t.literals_lt (hlength ▸ t.literals_lt)
    split
    · exact bindFrom?_isSome (hlength ▸ t.params_lt) ∅
    · rfl
    · next hnone => simp [hnone] at hagree
  · rfl

/-- The parameters that a template binds when it matches segments. -/
def bind (t : Template) (segments : List String) : Option TextMap :=
  (t.bind? segments).get (t.bind?_isSome segments)

theorem bind?_eq (t : Template) (segments : List String) :
    t.bind? segments = some (t.bind segments) := by
  simp [bind]

end Template

end HttpEngine
