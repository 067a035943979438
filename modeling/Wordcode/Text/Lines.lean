import Wordcode.Text.Find
/-!
# Text.Lines — cutting a text into lines

A line ends at a line feed; one carriage return right before that line feed belongs to the ending.  A last line that
no line feed ends is a line if it holds any character, and keeps its carriage returns.  `cutLines_cons` is the law
that later proofs read the cut by: what one more character in front does to it.
-/
namespace Wordcode.Text

/-- The lines of a text, and whether the text starts with a line feed: all that a character in front has to know. -/
structure LineCut where
  lines : List (List Char)
  startsWithFeed : Bool
deriving Repr, DecidableEq

namespace LineCut

def empty : LineCut := ⟨[], false⟩

/-- The cut once `c` stands in front of the text. -/
def push (c : Char) (cut : LineCut) : LineCut :=
  if c = '\n' then ⟨[] :: cut.lines, true⟩
  else if c = '\r' ∧ cut.startsWithFeed = true then ⟨cut.lines, false⟩
  else ⟨intoFirst c cut.lines, false⟩

def ofChars (text : List Char) : LineCut := text.foldr push empty

end LineCut

/-- The lines of a text, without their endings. -/
def cutLines (text : List Char) : List (List Char) := (LineCut.ofChars text).lines

/-- **The first character decides**: a line feed opens a new line, a carriage return before a line feed is part of that
line's ending, and any other character joins the first line. -/
theorem cutLines_cons (c : Char) (text : List Char) :
    cutLines (c :: text) =
      if c = '\n' then [] :: cutLines text
      else if c = '\r' ∧ (LineCut.ofChars text).startsWithFeed = true then cutLines text
      else intoFirst c (cutLines text) := by
  simp only [cutLines, LineCut.ofChars, List.foldr_cons, LineCut.push]
  rw [apply_ite LineCut.lines, apply_ite LineCut.lines]
  rfl

theorem startsWithFeed_ofChars (text : List Char) :
    (LineCut.ofChars text).startsWithFeed = (text.head? == some '\n') := by
  cases text with
  | nil => rfl
  | cons c text =>
    simp only [LineCut.ofChars, List.foldr_cons, LineCut.push, List.head?_cons]
    by_cases h : c = '\n'
    · simp [h]
    · rw [if_neg h]
      split <;> simp [h]

def lines (text : String) : List String := (cutLines text.toList).map String.ofList

/-- Lines under each other: a line feed between any two of them and one at the very end. -/
def unlines (ls : List String) : String := "\n".intercalate ls ++ "\n"

end Wordcode.Text
