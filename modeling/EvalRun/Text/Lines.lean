/-! # Text.Lines — cutting a text into lines

    A line ends at a line feed, and one carriage return directly before the
    line feed belongs to the line end. What follows the last line feed is a
    line of its own if it is not empty.
-/

namespace EvalRun.Text

/-- The line without the carriage return at its end. -/
def chopReturn (line : List Char) : List Char :=
  if line.getLast? = some '\r' then line.dropLast else line

/-- The lines of a text, given the characters of the current line so far in
    reverse. -/
def linesFrom (current : List Char) : List Char → List (List Char)
  | [] => if current.isEmpty then [] else [current.reverse]
  | c :: rest =>
    if c = '\n' then chopReturn current.reverse :: linesFrom [] rest
    else linesFrom (c :: current) rest

/-- The lines of a text without their line ends. -/
def lines (cs : List Char) : List (List Char) := linesFrom [] cs

end EvalRun.Text
