/-
  The lines of a source text.

  A line ends at a line feed, a carriage return, or both in this order.
  `Source.lines` gives the lines without the blanks at their ends; on demand
  the type `x86_fp80` is read as `double`.
-/
import LlvmAsm.Text.Blank

namespace LlvmAsm.Source

/-- The lines of the rest of a text, after the characters `current` of the
    first one and after the lines `done`, the latest first in both. -/
def splitLines (current : Text) (done : List Text) : Text → List Text
  | [] => (current.reverse :: done).reverse
  | '\r' :: '\n' :: t => splitLines [] (current.reverse :: done) t
  | c :: t =>
    if c = '\n' ∨ c = '\r' then splitLines [] (current.reverse :: done) t
    else splitLines (c :: current) done t

/-- The lines of a text. The last one is empty if the text ends with the end of
    a line. -/
def lines (extendedAsDouble : Bool) (t : Text) : List Text :=
  (splitLines [] [] t).map fun line =>
    Text.trimEnd (if extendedAsDouble then Text.replace line "x86_fp80" "double" else line)

end LlvmAsm.Source
