import Jarwright.Text.Blank

/-!
# The layout of source files

Sources are kept with line feeds only, without blanks at the ends of lines, and with exactly one
line feed at the end.
-/

namespace Jarwright.Source

/-- The lines of a text without the blanks behind them and without the blank lines at the end. -/
def layoutLines (cs : List Char) : List (List Char) :=
  (((Text.lines cs).map Text.trimEnd).reverse.dropWhile List.isEmpty).reverse

/-- A text in the layout of source files. A text without anything but blanks is one line feed. -/
def layout (cs : List Char) : List Char :=
  match layoutLines cs with
  | [] => ['\n']
  | ls => ls.flatMap (· ++ ['\n'])

end Jarwright.Source
