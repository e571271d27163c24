import ConfigScript.Position
import ConfigScript.Text.Lines

/-!
# Report — a message about a place in a text

A report says what is wrong and where.  It can be written in one line (`Report.summary`) or with the
line of text it is about and a caret below the column (`Report.excerpt`).  The position of a report
is one in a text, so its numbers can be written (`Position.isShort_after`).
-/

namespace ConfigScript

/-- **A message and the position it is about.** -/
structure Report where
  message : String
  position : Position
deriving DecidableEq, Inhabited

namespace Report

/-- The name of a text that has no other. -/
def unnamed : String := "input.conf"

/-- A report in one line: position, colon, message. -/
def summary (r : Report) : String := r.position.spelling ++ ": " ++ r.message

/-- The line of `source` with the given number, without its line end.  A number that no line has
gives an empty line. -/
def sourceLine (source : String) (line : Int) : String :=
  if line < 1 then "" else
    match (Text.lines source.toList)[(line - 1).toNat]? with
    | some l => String.ofList (Text.withoutEnd l)
    | none => ""

/-- So many blanks; none for a negative number. -/
def blanks (n : Int) : String := String.ofList (List.replicate n.toNat ' ')

/-- **A report in full**: the message, the place, the line of text and a caret below the column.
The line number stands in a gutter that is as wide as the number. -/
def excerpt (r : Report) (source filename : String) : String :=
  let number := toString r.position.line
  let gutter := blanks (number.length + 1)
  "error: " ++ r.message ++ "\n"
    ++ gutter ++ "--> " ++ filename ++ ":" ++ r.position.spelling ++ "\n"
    ++ gutter ++ "|\n"
    ++ number ++ " | " ++ sourceLine source r.position.line ++ "\n"
    ++ gutter ++ "| " ++ blanks (r.position.column - 1) ++ "^"

end Report

end ConfigScript
