import Wordcode.Listing.Error
import Wordcode.Text.Bytes
/-!
# Listing.Token — the elements of a listing

A listing is an array: a bracket, elements with commas between them, a bracket, and blanks wherever they do no harm.
An element is a name in double quotes, without escapes, or an integer.  `tokens` reads the elements with the bytes they
span; when it fails it says what the grammar wanted, where an element was last looked for and no name was found.
-/
namespace Wordcode.Listing

/-- What an element says. -/
inductive Lexeme
  /-- A name, without its quotes. -/
  | name (text : String)
  /-- An integer, as it is written. -/
  | integer (text : String)
deriving DecidableEq, Repr

/-- An element of a listing and where it stands, quotes included. -/
structure Token where
  lexeme : Lexeme
  span : Span
deriving DecidableEq, Repr

/-- The blanks that may stand between the parts of a listing. -/
def isSpace (c : Char) : Bool := c == ' ' || c == '\t' || c == '\r' || c == '\n'

def isNameChar (c : Char) : Bool := c != '"' && c != '\\'

/-- A place in a text: the bytes in front of it and the characters behind it. -/
structure Cursor where
  pos : Nat
  rest : List Char
deriving DecidableEq, Repr

namespace Cursor

/-- The start of a text. -/
def start (text : String) : Cursor := ⟨0, text.toList⟩

/-- The place behind a run of characters. -/
def skipWhile (p : Char → Bool) (c : Cursor) : Cursor :=
  ⟨c.pos + Text.byteLen (c.rest.takeWhile p), c.rest.dropWhile p⟩

/-- The place behind the blanks. -/
def skipSpace (c : Cursor) : Cursor := c.skipWhile isSpace

/-- The place behind the character `d`, if that comes next. -/
def expect? (d : Char) (c : Cursor) : Option Cursor :=
  match c.rest with
  | [] => none
  | e :: rest => if e = d then some ⟨c.pos + e.utf8Size, rest⟩ else none

/-- A name that starts here, and the place behind it. -/
def name? (c : Cursor) : Option (Token × Cursor) := do
  let inner ← c.expect? '"'
  let behind ← (inner.skipWhile isNameChar).expect? '"'
  return (⟨.name (String.ofList (inner.rest.takeWhile isNameChar)), ⟨c.pos, behind.pos⟩⟩, behind)

/-- An integer that starts here, and the place behind it. -/
def integer? (c : Cursor) : Option (Token × Cursor) :=
  let sign := (c.expect? '-').map fun _ => '-'
  let digits := (c.expect? '-').getD c
  let behind := digits.skipWhile Char.isDigit
  match digits.rest.takeWhile Char.isDigit with
  | [] => none
  | d :: ds => some (⟨.integer (String.ofList (sign.toList ++ d :: ds)), ⟨c.pos, behind.pos⟩⟩, behind)

/-- An element that starts here, and the place behind it. -/
def token? (c : Cursor) : Option (Token × Cursor) := c.name? <|> c.integer?

theorem length_dropWhile_le {α : Type} (p : α → Bool) (l : List α) : (l.dropWhile p).length ≤ l.length :=
  (List.dropWhile_sublist p).length_le

theorem length_skipWhile_le (p : Char → Bool) (c : Cursor) : (c.skipWhile p).rest.length ≤ c.rest.length :=
  length_dropWhile_le p _

theorem length_expect? {d : Char} {c e : Cursor} (h : c.expect? d = some e) : c.rest.length = e.rest.length + 1 := by
  unfold expect? at h
  split at h
  · cases h
  · rename_i x rest hr
    split at h
    · cases h; simp [hr]
    · cases h

theorem length_name? {c e : Cursor} {t : Token} (h : c.name? = some (t, e)) : e.rest.length < c.rest.length := by
  obtain ⟨inner, hi, h⟩ := Option.bind_eq_some_iff.1 h
  obtain ⟨behind, hb, h⟩ := Option.bind_eq_some_iff.1 h
  cases h
  have h1 := length_expect? hi
  have h2 := length_expect? hb
  have h3 := length_skipWhile_le isNameChar inner
  omega

theorem length_integer? {c e : Cursor} {t : Token} (h : c.integer? = some (t, e)) :
    e.rest.length < c.rest.length := by
  unfold integer? at h
  simp only at h
  have hd : ((c.expect? '-').getD c).rest.length ≤ c.rest.length := by
    cases hx : c.expect? '-' with
    | none => simp
    | some x => have := length_expect? hx; simp; omega
  split at h
  · cases h
  · rename_i d ds htake
    cases h
    have hsum := congrArg List.length
      (List.takeWhile_append_dropWhile (p := Char.isDigit) (l := ((c.expect? '-').getD c).rest))
    rw [htake, List.length_append, List.length_cons] at hsum
    simp only [skipWhile]
    omega

/-- **An element takes at least one character.** -/
theorem length_token? {c e : Cursor} {t : Token} (h : c.token? = some (t, e)) : e.rest.length < c.rest.length := by
  unfold token? at h
  cases hn : c.name? with
  | some x => rw [hn] at h; cases h; exact length_name? hn
  | none => rw [hn] at h; exact length_integer? h

end Cursor

/-- Where a token shows that no name starts: at an integer. -/
def Token.nameless : Token → Option Nat
  | ⟨.integer _, span⟩ => some span.start
  | ⟨.name _, _⟩ => none

/-- What a run of elements leads to. -/
structure Scan where
  tokens : List Token
  /-- The place behind the last element. -/
  stop : Cursor
  /-- Where an element was last looked for and no name was found. -/
  nameless : Option Nat
deriving DecidableEq, Repr

/-- **The run of elements from `c`, where one is due**; reading goes on at `back` if none stands there.  A comma after
an element makes another one due, and belongs to the run only if one follows. -/
def elements (back c : Cursor) : Scan :=
  match _h : c.skipSpace.token? with
  | none => ⟨[], back, some c.skipSpace.pos⟩
  | some (t, e) =>
    match _h' : e.skipSpace.expect? ',' with
    | none => ⟨[t], e, t.nameless⟩
    | some f =>
      let more := elements e f
      ⟨t :: more.tokens, more.stop, more.nameless <|> t.nameless⟩
termination_by c.rest.length
decreasing_by
  have h1 := Cursor.length_token? _h
  have h2 := Cursor.length_expect? _h'
  have h3 := Cursor.length_skipWhile_le isSpace c
  have h4 := Cursor.length_skipWhile_le isSpace e
  simp only [Cursor.skipSpace] at h1 h2
  omega

/-- An error of the grammar, at a place. -/
def Error.grammarAt (expected : Expected) (pos : Nat) : Error := ⟨.grammar expected, ⟨pos, pos⟩⟩

/-- What the grammar wanted where a run of elements is followed by no closing bracket. -/
def Scan.error (s : Scan) : Error :=
  match s.nameless with
  | some pos => .grammarAt .element pos
  | none => .grammarAt .openBracket 0

/-- **The elements of a listing.** -/
def tokens (text : String) : Except Error (List Token) :=
  match (Cursor.start text).skipSpace.expect? '[' with
  | none => .error (.grammarAt .openBracket 0)
  | some inner =>
    let scan := elements inner inner
    match scan.stop.skipSpace.expect? ']' with
    | none => .error scan.error
    | some behind =>
      if behind.skipSpace.rest = [] then .ok scan.tokens else .error (.grammarAt .endOfInput behind.skipSpace.pos)

end Wordcode.Listing
