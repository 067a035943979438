import Wordcode.Report.Snippet
import Wordcode.Text.Column
import Wordcode.Text.Lines
/-!
# Report.Render — diagnostics as they are shown to a user

A diagnostic that points into a source is shown with that source, the span marked under it and the help below.  All
others are shown by their headline and their help.  A span that starts beyond the source, or covers a place beyond its
end, leaves only the title.
-/
namespace Wordcode.Report

def title : Severity → String
  | .error => "Error:"
  | .warning => "Warning:"

def titleStyle : Severity → Style
  | .error => .error
  | .warning => .warning

/-- The code in brackets, at least two columns wide. -/
def codeColumn : Option String → String
  | none => ""
  | some code => "[" ++ Text.padRight 2 code ++ "] "

def titleRow (d : Diagnostic) : List Ink :=
  [styled (titleStyle d.severity) (codeColumn d.code ++ title d.severity), plain " ", plain d.message, newline]

/-- What a report calls its source. -/
def sourceName (d : Diagnostic) : String := d.function.getD "<listing>"

/-- The rows that open the frame and name the place. -/
def frameTop (name : String) (column : Nat) : List Ink :=
  [plain "   ", styled .margin "╭", styled .margin "─", styled .margin "[", plain s!" {name}:1:{column} ",
   styled .margin "]", newline, plain "   ", styled .margin "│", newline]

def frameBottom : List Ink := [styled .margin "───╯", newline]

/-- What the helps are headed by: they are numbered if there are several. -/
def helpLabel (count index : Nat) : String := if count = 1 then "Help" else s!"Help {index + 1}"

/-- The rows of one help, the lines behind the first under the first one's text. -/
def helpRows (label : String) : List String → List Ink
  | [] => []
  | first :: more =>
    gutter ++ [styled .help label, plain ": ", plain first, newline] ++
      more.flatMap fun line => gutter ++ [plain (Text.spaces (label.length + 2)), plain line, newline]

/-- An empty row and the rows of the help at an index, of `count` helps. -/
def helpBlock (count index : Nat) (help : String) : List Ink :=
  gutter ++ [newline] ++ helpRows (helpLabel count index) (Text.lines help)

def helpSection (helps : List String) : List Ink := (helps.mapIdx (helpBlock helps.length)).flatten

/-- The span lies within a source of `length` characters, or right behind it. -/
def inReach (length : Nat) (span : Span) : Bool :=
  span.start ≤ length && (span.stop ≤ span.start || span.stop ≤ length + 1)

/-- The marked source, if the span stops within it. -/
def body (source : String) (span : Span) (message : String) : List Ink :=
  if source.length < span.stop then gutter ++ [newline]
  else snippet ⟨Text.dropBlanksEnd source.toList, span.start, span.stop⟩ message

def framed (d : Diagnostic) (source : String) (span : Span) : List Ink :=
  titleRow d ++
    if inReach source.length span then
      frameTop (sourceName d) (span.start + 1) ++ body source span d.message ++ helpSection d.help ++ frameBottom
    else []

def brief (d : Diagnostic) : List Ink :=
  [plain d.headline, newline] ++ d.help.flatMap fun help => [plain "  help: ", plain help, newline]

def inks (d : Diagnostic) : List Ink :=
  match d.span, d.source with
  | some span, some source => framed d source span
  | _, _ => brief d

/-- **A diagnostic as it is shown**, in colour or without. -/
def render (colour : Bool) (d : Diagnostic) : String := writeAll colour (inks d)

end Wordcode.Report
