import Mathlib.Data.List.Forall2
import Wordcode.Listing.Reader
/-!
# Proofs.Listing.Grammar — the language of listings, as rules

A listing is an array of elements with blanks wherever they do no harm (`IsArray`), and its elements are the elements
of its instructions behind each other (`Spelling`).  Nothing here reads a text: these are the rules that reading is
measured by.
-/
namespace Wordcode.Listing

/-- Only blanks. -/
def Blank (cs : List Char) : Prop := ∀ c ∈ cs, c = ' ' ∨ c = '\t' ∨ c = '\r' ∨ c = '\n'

namespace Lexeme

/-- An element as it is written. -/
def chars : Lexeme → List Char
  | name text => '"' :: text.toList ++ ['"']
  | integer text => text.toList

/-- **What an element may say**: a name has neither quotes nor backslashes, an integer is digits behind at most one
sign. -/
inductive Valid : Lexeme → Prop
  | name {text : String} (h : ∀ c ∈ text.toList, c ≠ '"' ∧ c ≠ '\\') : Valid (.name text)
  | integer {text : String} {digits : List Char} (hne : digits ≠ []) (hd : ∀ c ∈ digits, c.isDigit = true)
      (h : text.toList = digits ∨ text.toList = '-' :: digits) : Valid (.integer text)

/-- An integer without a sign whose value is the byte. -/
inductive IsByte (b : UInt8) : Lexeme → Prop
  | integer {text : String} (hne : text.toList ≠ []) (hd : ∀ c ∈ text.toList, c.isDigit = true)
      (hv : Text.digitsValue text.toList = b.toNat) : IsByte b (.integer text)

end Lexeme

/-- An element with blanks around it. -/
def Padded (l : Lexeme) (cs : List Char) : Prop :=
  ∃ before behind, Blank before ∧ Blank behind ∧ l.Valid ∧ cs = before ++ l.chars ++ behind

/-- **The elements between the brackets**: commas stand between any two of them and nowhere else. -/
inductive Body : List Lexeme → List Char → Prop
  | none {cs : List Char} (h : Blank cs) : Body [] cs
  | last {l : Lexeme} {cs : List Char} (h : Padded l cs) : Body [l] cs
  | more {l m : Lexeme} {ls : List Lexeme} {cs rest : List Char} (h : Padded l cs) (hb : Body (m :: ls) rest) :
      Body (l :: m :: ls) (cs ++ ',' :: rest)

/-- The text is an array of the elements and nothing else. -/
def IsArray (text : List Char) (ls : List Lexeme) : Prop :=
  ∃ lead body trail, Blank lead ∧ Blank trail ∧ Body ls body ∧ text = lead ++ '[' :: body ++ ']' :: trail

/-- **The elements of an instruction.**  A word is its mnemonic and three bytes.  A call is its mnemonic, the target,
the signature, a byte for each argument, and bytes of any value up to whole words. -/
inductive Spells : SymbolicInstr → List Lexeme → Prop
  | op {o : Opcode} {x y z : UInt8} {lx ly lz : Lexeme} (ho : o ≠ .call) (hx : lx.IsByte x) (hy : ly.IsByte y)
      (hz : lz.IsByte z) : Spells (.op o x y z) [.name o.mnemonic, lx, ly, lz]
  | call {target : String} {s : Signature} {args pads : List UInt8} {largs lpads : List Lexeme}
      (hargs : List.Forall₂ Lexeme.IsByte args largs) (harity : args.length = s.arity)
      (hpads : List.Forall₂ Lexeme.IsByte pads lpads) (hlen : 3 + args.length + pads.length = Instr.callLen s.arity) :
      Spells (.call target s args) (.name Opcode.call.mnemonic :: .name target :: .name s.text :: (largs ++ lpads))

/-- The elements of instructions behind each other. -/
def Spelling (is : List SymbolicInstr) (ls : List Lexeme) : Prop :=
  ∃ parts, List.Forall₂ Spells is parts ∧ ls = parts.flatten

/-- The first instruction, if any, is a function header. -/
def Headed (is : List SymbolicInstr) : Prop := ∀ i ∈ is.head?, ∃ n y z, i = .op .prologue n y z

theorem blank_iff (cs : List Char) : Blank cs ↔ ∀ c ∈ cs, isSpace c = true := by
  simp [Blank, isSpace, or_assoc]

/-- **An instruction has as many elements as its encoding has bytes.** -/
theorem Spells.length_eq {i : SymbolicInstr} {ls : List Lexeme} (h : Spells i ls) : ls.length = i.encodedLen := by
  cases h with
  | op => rfl
  | call hargs harity hpads hlen =>
    have h1 := hargs.length_eq
    have h2 := hpads.length_eq
    simp only [List.length_cons, List.length_append, Instr.encodedLen, harity]
    omega

theorem spelling_nil_iff (ls : List Lexeme) : Spelling [] ls ↔ ls = [] := by
  constructor
  · rintro ⟨parts, h, rfl⟩
    cases h
    rfl
  · rintro rfl
    exact ⟨[], .nil, rfl⟩

theorem spelling_cons_iff (i : SymbolicInstr) (is : List SymbolicInstr) (ls : List Lexeme) :
    Spelling (i :: is) ls ↔ ∃ part rest, Spells i part ∧ Spelling is rest ∧ ls = part ++ rest := by
  constructor
  · rintro ⟨parts, h, rfl⟩
    cases h with
    | cons hi his => exact ⟨_, _, hi, ⟨_, his, rfl⟩, rfl⟩
  · rintro ⟨part, rest, hi, ⟨parts, his, rfl⟩, rfl⟩
    exact ⟨part :: parts, .cons hi his, rfl⟩

/-- Instructions are spelled in front of those behind them. -/
theorem Spelling.split {is : List SymbolicInstr} {ls : List Lexeme} (h : Spelling is ls) (k : Nat) :
    ∃ front behind, Spelling (is.take k) front ∧ Spelling (is.drop k) behind ∧ ls = front ++ behind := by
  obtain ⟨parts, h, rfl⟩ := h
  refine ⟨(parts.take k).flatten, (parts.drop k).flatten, ⟨_, List.forall₂_take k h, rfl⟩,
    ⟨_, List.forall₂_drop k h, rfl⟩, ?_⟩
  rw [← List.flatten_append, List.take_append_drop]

theorem Spelling.spells_of_mem {is : List SymbolicInstr} {ls : List Lexeme} (h : Spelling is ls) :
    ∀ i ∈ is, ∃ part, Spells i part := by
  induction is generalizing ls with
  | nil => intro i hi; cases hi
  | cons j is ih =>
    obtain ⟨part, rest, hj, his, -⟩ := (spelling_cons_iff j is ls).1 h
    intro i hi
    rcases List.mem_cons.1 hi with rfl | hi
    · exact ⟨part, hj⟩
    · exact ih his i hi

/-- The elements of instructions are whole words. -/
theorem Spelling.dvd_length {is : List SymbolicInstr} {ls : List Lexeme} (h : Spelling is ls) :
    wordSize ∣ ls.length := by
  induction is generalizing ls with
  | nil => rw [(spelling_nil_iff ls).1 h]; exact Nat.dvd_zero _
  | cons i is ih =>
    obtain ⟨part, rest, hi, his, rfl⟩ := (spelling_cons_iff i is ls).1 h
    rw [List.length_append, hi.length_eq]
    exact Nat.dvd_add i.dvd_encodedLen (ih his)

end Wordcode.Listing
