import Wordcode.Diagnostic
import Wordcode.Text.Bytes
import Wordcode.Text.Find
/-!
# Host.Placeholder — where a line waits for an address

A placeholder is a name in parentheses behind a fixed mark: `(EMTERPRETER_name)`.  A line is cut into placeholders and
single characters; nothing of it is lost (`flatMap_chars_pieces`).  What only looks like a placeholder stays text.
-/
namespace Wordcode.Placeholder

/-- What stands between the opening parenthesis and the name. -/
def mark : String := "EMTERPRETER_"

/-- What a placeholder starts with. -/
def opening : List Char := '(' :: mark.toList

def isNameChar (c : Char) : Bool := c.isAlphanum || c == '_' || c == '$'

def chars (name : String) : List Char := opening ++ name.toList ++ [')']

/-- **The placeholder that a text starts with**: its name and what follows it. -/
def read? (cs : List Char) : Option (String × List Char) :=
  match Text.after? opening cs with
  | none => none
  | some rest =>
    match rest.takeWhile isNameChar, rest.dropWhile isNameChar with
    | c :: name, ')' :: behind => some (String.ofList (c :: name), behind)
    | _, _ => none

theorem eq_of_read? {cs behind : List Char} {name : String} (h : read? cs = some (name, behind)) :
    cs = chars name ++ behind := by
  unfold read? at h
  split at h
  · cases h
  · rename_i rest hrest
    split at h
    · rename_i c n b htake hdrop
      cases h
      have := List.takeWhile_append_dropWhile (p := isNameChar) (l := rest)
      rw [htake, hdrop] at this
      rw [Text.after?_eq_some_iff.1 hrest, ← this]
      simp [chars]
    · cases h

inductive Piece
  /-- A character outside of all placeholders. -/
  | char (c : Char)
  | hole (name : String)
deriving DecidableEq, Repr

def Piece.chars : Piece → List Char
  | char c => [c]
  | hole name => Placeholder.chars name

/-- **The parts of a line**, from left to right. -/
def pieces : List Char → List Piece
  | [] => []
  | c :: cs =>
    match _h : read? (c :: cs) with
    | some (name, behind) => .hole name :: pieces behind
    | none => .char c :: pieces cs
termination_by cs => cs.length
decreasing_by
  · rw [eq_of_read? _h]
    simp [chars]
    omega
  · simp

/-- Nothing of a line is lost. -/
theorem flatMap_chars_pieces (cs : List Char) : (pieces cs).flatMap Piece.chars = cs := by
  fun_induction pieces cs with
  | case1 => rfl
  | case2 c cs name behind h ih => rw [List.flatMap_cons, ih, eq_of_read? h]; rfl
  | case3 c cs h ih => rw [List.flatMap_cons, ih]; rfl

/-- The placeholders among the parts of a line, each with its bytes; the first part starts after `pos` bytes. -/
def holes (pos : Nat) : List Piece → List (String × Span)
  | [] => []
  | p :: ps =>
    let stop := pos + Text.byteLen p.chars
    match p with
    | .char _ => holes stop ps
    | .hole name => (name, ⟨pos, stop⟩) :: holes stop ps

/-- The placeholders of a line, each with its bytes. -/
def holesOf (line : String) : List (String × Span) := holes 0 (pieces line.toList)

def addressChars (address : UInt32) : List Char := '(' :: (toString address.toNat).toList ++ [')']

/-- A part of a line once addresses are known; a placeholder without an address stays. -/
def Piece.fill (address? : String → Option UInt32) : Piece → List Char
  | char c => [c]
  | hole name => ((address? name).map addressChars).getD (Placeholder.chars name)

/-- **A line once addresses are known.** -/
def fillLine (address? : String → Option UInt32) (line : String) : String :=
  String.ofList ((pieces line.toList).flatMap (Piece.fill address?))

end Wordcode.Placeholder
