/-!
# Splitting text

`splitFirst` splits a text at the first mark of one character.  `lines` gives the lines of a text.  Every
line ends in a line feed, which may follow a carriage return, except that the last one may be left open.
-/

namespace TableQuery.Text

/-- The text before the first mark, and the text after it if there is a mark. -/
def splitFirst (mark : Char) (text : List Char) : List Char × Option (List Char) :=
  match text.span (· != mark) with
  | (before, _ :: after) => (before, some after)
  | (before, []) => (before, none)

/-- A text without a carriage return at its end. -/
def withoutReturn (text : List Char) : List Char :=
  if text.getLast? = some '\r' then text.dropLast else text

/-- The lines that parts between line feeds are.  The last part is a line only if it is not empty. -/
def closedLines : List (List Char) → List (List Char)
  | [] => []
  | [last] => if last.isEmpty then [] else [last]
  | line :: more => withoutReturn line :: closedLines more

/-- The lines of a text. -/
def lines (text : List Char) : List (List Char) := closedLines (text.splitOn '\n')

example : lines "a\r\n\nb\r".toList = ["a".toList, [], "b\r".toList] := by decide +kernel
example : lines [] = [] := rfl

end TableQuery.Text
