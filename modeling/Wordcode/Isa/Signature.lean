/-!
# Isa.Signature — the kinds of values that cross a call

A signature is written as one letter for what the call returns (`v` for nothing) and one letter for each parameter.
Text and value determine each other: `ofChars?_chars` and `chars_of_ofChars?`.
-/
namespace Wordcode

inductive ValueKind
  | int
  /-- A single precision number, which travels as a double. -/
  | float
  | double
deriving DecidableEq, Repr

namespace ValueKind

def letter : ValueKind → Char
  | int => 'i'
  | float => 'f'
  | double => 'd'

def ofLetter? (c : Char) : Option ValueKind :=
  if c = 'i' then some int else if c = 'f' then some float else if c = 'd' then some double else none

theorem ofLetter?_letter (k : ValueKind) : ofLetter? k.letter = some k := by cases k <;> rfl

theorem letter_of_ofLetter? {c : Char} {k : ValueKind} (h : ofLetter? c = some k) : k.letter = c := by
  unfold ofLetter? at h
  repeat' split at h
  all_goals first | (cases h; subst_vars; rfl) | cases h

end ValueKind

/-- The signature of a call: what it returns, if anything, and what it takes. -/
structure Signature where
  ret : Option ValueKind
  params : List ValueKind
deriving DecidableEq, Repr

structure InvalidSignature where
  text : String
deriving DecidableEq, Repr

def InvalidSignature.message (e : InvalidSignature) : String := s!"Invalid call signature '{e.text}'"

namespace Signature

def arity (s : Signature) : Nat := s.params.length

/-- The letter of what a call returns. -/
def retLetter : Option ValueKind → Char
  | none => 'v'
  | some k => k.letter

/-- What a call returns, by its letter. -/
def retOfLetter? (c : Char) : Option (Option ValueKind) :=
  if c = 'v' then some none else (ValueKind.ofLetter? c).map some

def chars (s : Signature) : List Char := retLetter s.ret :: s.params.map ValueKind.letter

def text (s : Signature) : String := String.ofList s.chars

def ofChars? : List Char → Option Signature
  | [] => none
  | c :: cs => do
    let ret ← retOfLetter? c
    let params ← cs.mapM ValueKind.ofLetter?
    return ⟨ret, params⟩

def parse (text : String) : Except InvalidSignature Signature :=
  match ofChars? text.toList with
  | some s => .ok s
  | none => .error ⟨text⟩

theorem retOfLetter?_retLetter (r : Option ValueKind) : retOfLetter? (retLetter r) = some r := by
  cases r with
  | none => rfl
  | some k => cases k <;> rfl

theorem retLetter_of_retOfLetter? {c : Char} {r : Option ValueKind} (h : retOfLetter? c = some r) :
    retLetter r = c := by
  unfold retOfLetter? at h
  split at h
  · rename_i hc; cases h; exact hc.symm
  · obtain ⟨k, hk, rfl⟩ := Option.map_eq_some_iff.1 h
    exact ValueKind.letter_of_ofLetter? hk

theorem mapM_ofLetter?_letter (ks : List ValueKind) : (ks.map ValueKind.letter).mapM ValueKind.ofLetter? = some ks := by
  induction ks with
  | nil => rfl
  | cons k ks ih => simp [List.mapM_cons, ValueKind.ofLetter?_letter, ih]

theorem letters_of_mapM {cs : List Char} {ks : List ValueKind} (h : cs.mapM ValueKind.ofLetter? = some ks) :
    ks.map ValueKind.letter = cs := by
  induction cs generalizing ks with
  | nil => simp at h; subst h; rfl
  | cons c cs ih =>
    rw [List.mapM_cons] at h
    obtain ⟨k, hk, h⟩ := Option.bind_eq_some_iff.1 h
    obtain ⟨ks', hks, h⟩ := Option.bind_eq_some_iff.1 h
    cases h
    rw [List.map_cons, ih hks, ValueKind.letter_of_ofLetter? hk]

/-- **A signature's letters spell it.** -/
theorem ofChars?_chars (s : Signature) : ofChars? s.chars = some s := by
  rw [chars, ofChars?, retOfLetter?_retLetter, mapM_ofLetter?_letter]
  rfl

/-- **Only a signature's letters spell it.** -/
theorem chars_of_ofChars? {cs : List Char} {s : Signature} (h : ofChars? cs = some s) : s.chars = cs := by
  cases cs with
  | nil => cases h
  | cons c cs =>
    obtain ⟨r, hr, h⟩ := Option.bind_eq_some_iff.1 h
    obtain ⟨ks, hks, h⟩ := Option.bind_eq_some_iff.1 h
    cases h
    rw [chars, retLetter_of_retOfLetter? hr, letters_of_mapM hks]

end Signature
end Wordcode
