import Wordcode.Text.Blank
import Wordcode.Text.Joined
import Wordcode.Text.Wide
/-!
# Text.Width — how many columns a character takes on a terminal

A tab fills up to the next multiple of four, counted from the character's index in its line.  A blank takes one column,
a character that is drawn with its neighbour takes none, a wide one takes two, and all others take one.  So a character
that comes before the soft hyphen takes one column if it is no tab (`columns_of_lt`).
-/
namespace Wordcode.Text

/-- Tab stops stand every four characters. -/
def tabStop : Nat := 4

/-- The columns of a character that is drawn.  Two Khmer characters are as wide as the three and the two characters that
they are written for. -/
def glyphColumns (c : Char) : Nat :=
  if c = '\u17d8' then 3
  else if c = '\u17a4' then 2
  else if isJoined c then 0
  else if isWide c then 2
  else 1

/-- **The columns of the character at `index` of its line.** -/
def columns (index : Nat) (c : Char) : Nat :=
  if c = '\t' then (index / tabStop + 1) * tabStop - index
  else if isBlank c then 1
  else glyphColumns c

theorem glyphColumns_of_lt {c : Char} (h : c.toNat < 0xAD) : glyphColumns c = 1 := by
  have h3 : c ≠ '\u17d8' := by rintro rfl; revert h; decide
  have h2 : c ≠ '\u17a4' := by rintro rfl; revert h; decide
  simp [glyphColumns, h3, h2, isJoined_of_lt h, isWide_of_lt (show c.toNat < 0x1100 by omega)]

/-- Before the soft hyphen every character but the tab takes one column. -/
theorem columns_of_lt (index : Nat) {c : Char} (h : c.toNat < 0xAD) (ht : c ≠ '\t') : columns index c = 1 := by
  simp [columns, ht, glyphColumns_of_lt h]

/-- A tab ends at a tab stop. -/
theorem columns_tab (index : Nat) : index + columns index '\t' = (index / tabStop + 1) * tabStop := by
  simp only [columns, if_true, tabStop]; omega

/-- A character of one byte takes a column at least. -/
theorem columns_pos (index : Nat) {c : Char} (h : c.utf8Size = 1) : 0 < columns index c := by
  by_cases ht : c = '\t'
  · have hstop := columns_tab index
    subst ht
    simp only [tabStop] at hstop
    omega
  · have hascii : c.toNat ≤ 127 := Char.utf8Size_eq_one_iff.1 h
    rw [columns_of_lt index (by omega) ht]
    exact Nat.one_pos

/-- No character takes more columns than stand between two tab stops. -/
theorem columns_le (index : Nat) (c : Char) : columns index c ≤ tabStop := by
  unfold columns glyphColumns tabStop
  repeat' split
  all_goals omega

end Wordcode.Text
