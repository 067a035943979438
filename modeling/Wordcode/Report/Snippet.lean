import Wordcode.Diagnostic
import Wordcode.Report.Ink
import Wordcode.Text.Width
/-!
# Report.Snippet — a line of source with a span marked under it

Three rows: the source, a row that underlines the span, and a row that leads from the middle of the span to the message.
The rows are made column by column from the characters of the source; a place behind the source is one column wide, and
under a character that takes no column there is nothing, not even the hook of the message.
-/
namespace Wordcode.Report

/-- A span of characters on one line of source. -/
structure Mark where
  /-- The characters of the line, without the blanks at its end. -/
  line : List Char
  start : Nat
  stop : Nat
deriving DecidableEq, Repr

namespace Mark

def covers (m : Mark) (index : Nat) : Bool := m.start ≤ index && index < m.stop

/-- The character that the message hangs on. -/
def middle (m : Mark) : Nat := (m.start + m.stop) / 2

def width (m : Mark) (index : Nat) : Nat :=
  match m.line[index]? with
  | some c => Text.columns index c
  | none => 1

def style (m : Mark) (index : Nat) : Style := if m.covers index then .label else .source

/-- How far the rows below the source go: a little beyond the span. -/
def reach (m : Mark) : Nat := m.stop + 2

end Mark

/-- The margin in front of a row that shows no source. -/
def gutter : List Ink := [plain " ", styled .emptyMargin "  │", plain " "]

def newline : Ink := plain "\n"

/-- So many columns, the first in one ink and the others in another. -/
def cell (width : Nat) (first rest : Ink) : List Ink :=
  match width with
  | 0 => []
  | more + 1 => first :: List.replicate more rest

def fillCell (width : Nat) (ink : Ink) : List Ink := List.replicate width ink

/-- **A cell has its columns**, be it without any. -/
theorem length_cell (width : Nat) (first rest : Ink) : (cell width first rest).length = width := by
  cases width <;> simp [cell]

theorem length_fillCell (width : Nat) (ink : Ink) : (fillCell width ink).length = width := by simp [fillCell]

/-- The character at an index of the source; a blank is written as the columns it takes. -/
def sourceCell (m : Mark) (index : Nat) (c : Char) : List Ink :=
  if Text.isBlank c then fillCell (m.width index) (styled (m.style index) " ")
  else [styled (m.style index) (String.singleton c)]

def sourceRow (m : Mark) : List Ink :=
  [plain " ", styled .margin "1 │", plain " "] ++ (m.line.mapIdx (sourceCell m)).flatten ++ [newline]

def underlineCell (m : Mark) (index : Nat) : List Ink :=
  let width := m.width index
  if index = m.middle then
    if m.covers index then cell width (styled .label "┬") (styled .label "─")
    else cell width (styled .label "│") (styled .label " ")
  else if m.covers index then fillCell width (styled .label "─")
  else fillCell width (plain " ")

/-- **The row that underlines the span.** -/
def underlineRow (m : Mark) : List Ink := gutter ++ (List.range m.reach).flatMap (underlineCell m) ++ [newline]

/-- What stands between the underline and the message. -/
def leadCell (m : Mark) (index : Nat) : List Ink :=
  let width := m.width index
  if index < m.middle then fillCell width (plain " ")
  else if index = m.middle then cell width (styled .label "╰") (styled .label "─")
  else fillCell width (styled .label "─")

def leadRow (m : Mark) (message : String) : List Ink :=
  gutter ++ (List.range m.reach).flatMap (leadCell m) ++ [plain " ", plain message, newline]

/-- A span of a line of source with a message hung on it. -/
def snippet (m : Mark) (message : String) : List Ink := sourceRow m ++ underlineRow m ++ leadRow m message

end Wordcode.Report
