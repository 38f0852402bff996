/-!
# Lines and separators

Splitting at a line feed or at a separator character. A **line** ends with a line feed, before
which one carriage return belongs to the line ending; a carriage return anywhere else, the end
of the input included, is part of the line. The text after the last line feed is a line of its
own unless it is empty.
-/

namespace HttpEngine.Text

/-- A line without the carriage return that precedes its line feed. -/
def dropReturn (line : List Char) : List Char :=
  if line.getLast? = some '\r' then line.dropLast else line

/-- The lines of pieces that were separated by line feeds: every piece but the last was ended by
one. -/
def linesOfPieces : List (List Char) → List (List Char)
  | [] => []
  | [last] => if last.isEmpty then [] else [last]
  | piece :: rest => dropReturn piece :: linesOfPieces rest

/-- The **lines** of a text. -/
def lines (cs : List Char) : List (List Char) := linesOfPieces (cs.splitOn '\n')

/-- The text before and after the first occurrence of a character, if it occurs. -/
def cutAt (c : Char) (cs : List Char) : Option (List Char × List Char) :=
  match cs.dropWhile (· != c) with
  | [] => none
  | _ :: after => some (cs.takeWhile (· != c), after)

@[simp] theorem lines_nil : lines [] = [] := by simp [lines, linesOfPieces]

end HttpEngine.Text
