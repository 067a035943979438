/-!
# Text.Column — fitting a text into a column

A column counts characters.  A text that is longer than its column is kept whole; only `clip` shortens.
-/
namespace Wordcode.Text

def spaces (n : Nat) : String := String.ofList (List.replicate n ' ')

def padRight (width : Nat) (s : String) : String := s ++ spaces (width - s.length)

def padLeft (width : Nat) (s : String) : String := spaces (width - s.length) ++ s

/-- The text in the middle of a column; an odd blank goes to the right. -/
def center (width : Nat) (s : String) : String :=
  let free := width - s.length
  spaces (free / 2) ++ s ++ spaces (free - free / 2)

/-- The first `n` characters of a text. -/
def clip (n : Nat) (s : String) : String := String.ofList (s.toList.take n)

theorem length_spaces (n : Nat) : (spaces n).length = n := by simp [spaces]

/-- A padded text fills its column or stands out of it by itself. -/
theorem length_padRight (width : Nat) (s : String) : (padRight width s).length = max width s.length := by
  simp only [padRight, String.length_append, length_spaces]; omega

theorem length_padLeft (width : Nat) (s : String) : (padLeft width s).length = max width s.length := by
  simp only [padLeft, String.length_append, length_spaces]; omega

theorem length_center (width : Nat) (s : String) : (center width s).length = max width s.length := by
  simp only [center, String.length_append, length_spaces]; omega

end Wordcode.Text
