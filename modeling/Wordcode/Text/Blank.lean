/-!
# Text.Blank — the characters of the White_Space property, and trimming

Trimming takes away blanks at one end of a text or at both.  Every character that Lean's own `Char.isWhitespace` knows
is a blank (`isBlank_of_isWhitespace`), and so are the blanks outside ASCII.
-/
namespace Wordcode.Text

/-- **The 25 characters of the Unicode property White_Space.** -/
def isBlank (c : Char) : Bool :=
  let n := c.toNat
  (0x09 ≤ n && n ≤ 0x0D) || n == 0x20 || n == 0x85 || n == 0xA0 || n == 0x1680 ||
  (0x2000 ≤ n && n ≤ 0x200A) || n == 0x2028 || n == 0x2029 || n == 0x202F || n == 0x205F || n == 0x3000

theorem isBlank_of_isWhitespace {c : Char} (h : c.isWhitespace = true) : isBlank c = true := by
  have hc : c = ' ' ∨ c = '\t' ∨ c = '\r' ∨ c = '\n' := by
    simpa [Char.isWhitespace, or_assoc] using h
  rcases hc with rfl | rfl | rfl | rfl <;> rfl

/-- What is left of a text without the blanks in front. -/
def dropBlanks (cs : List Char) : List Char := cs.dropWhile isBlank

/-- What is left of a text without the blanks behind. -/
def dropBlanksEnd (cs : List Char) : List Char := (cs.reverse.dropWhile isBlank).reverse

theorem dropBlanksEnd_prefix (cs : List Char) : dropBlanksEnd cs <+: cs := by
  have h := List.reverse_prefix.2 (List.dropWhile_suffix isBlank (l := cs.reverse))
  rwa [List.reverse_reverse] at h

/-- What is left of a text without the blanks at both ends. -/
def trimChars (cs : List Char) : List Char := dropBlanksEnd (dropBlanks cs)

/-- A string without the blanks behind. -/
def trimEnd (s : String) : String := String.ofList (dropBlanksEnd s.toList)

end Wordcode.Text
