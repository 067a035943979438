/-!
# Report.Ink — texts that may be painted

A report is a run of texts, some of them in a style.  Written in colour, each styled text stands between the escape
sequence that turns its style on and the one that turns everything off; written without, it stands alone.
-/
namespace Wordcode.Report

inductive Style
  | error
  | warning
  /-- What a span covers, and what points at it. -/
  | label
  | margin
  /-- The margin of a line that shows no source. -/
  | emptyMargin
  | source
  | help
deriving DecidableEq, Repr

/-- The parameters of the escape sequence that turns a style on. -/
def Style.parameters : Style → String
  | error => "31"
  | warning => "33"
  | label => "38;5;155"
  | margin => "38;5;246"
  | emptyMargin => "38;5;240"
  | source => "38;5;249"
  | help => "38;5;115"

structure Ink where
  style : Option Style
  text : String
deriving DecidableEq, Repr

def plain (text : String) : Ink := ⟨none, text⟩

def styled (style : Style) (text : String) : Ink := ⟨some style, text⟩

/-- The escape sequence with the given parameters. -/
def escape (parameters : String) : String := "\x1b[" ++ parameters ++ "m"

def Ink.write (colour : Bool) (ink : Ink) : String :=
  match ink.style, colour with
  | some style, true => escape style.parameters ++ ink.text ++ escape "0"
  | _, _ => ink.text

def writeAll (colour : Bool) (inks : List Ink) : String := String.join (inks.map (Ink.write colour))

theorem writeAll_append (colour : Bool) (a b : List Ink) :
    writeAll colour (a ++ b) = writeAll colour a ++ writeAll colour b := by
  simp [writeAll]

end Wordcode.Report
