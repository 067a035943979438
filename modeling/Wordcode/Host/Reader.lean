import Wordcode.Fault
import Wordcode.Host.Module
import Wordcode.Text.Blank
/-!
# Host.Reader — a module's items, read line by line

Three kinds of lines mean something.  `function name(` at the front of a line without a closing brace opens a function
block; a line that starts with a closing brace closes the open block, and an array behind the brace is the function's
listing; outside of blocks, `var a = …, b = …` declares imports.  Every other line is carried through, in the open block
or outside.  A block that opens inside another one, or never closes, is a fault.
-/
namespace Wordcode.HostModule

/-- The name of the function that a line opens a block for. -/
def headerName? (line : String) : Option String := do
  let rest ← Text.after? "function ".toList line.toList
  let name := Text.trimChars (rest.takeWhile fun c => c != '(')
  if line.toList.contains '\x7d' || name.isEmpty then none else some (String.ofList name)

/-- The listing that stands behind a closing brace, perhaps in a comment. -/
def listingBehind? (rest : List Char) : Option String :=
  let rest := Text.dropBlanks rest
  let array := Text.trimChars ((Text.after? "//".toList rest).getD rest)
  if array.head? = some '[' then some (String.ofList array) else none

/-- How deep in brackets the text behind a character is; a bracket that closes nothing counts for nothing. -/
def depthAfter (depth : Nat) (c : Char) : Nat :=
  if c = '(' ∨ c = '[' ∨ c = '\x7b' then depth + 1
  else if c = ')' ∨ c = ']' ∨ c = '\x7d' then depth - 1
  else depth

/-- **The parts of a text between the commas that stand outside of all brackets**, from a depth on. -/
def splitTopLevel (depth : Nat) : List Char → List (List Char)
  | [] => [[]]
  | c :: rest =>
    if c = ',' ∧ depth = 0 then [] :: splitTopLevel 0 rest
    else Text.intoFirst c (splitTopLevel (depthAfter depth c) rest)

/-- The import that one part of a declaration declares. -/
def importOf? (part : List Char) : Option Import := do
  let (name, value) ← Text.cutAt? '=' part
  let name := Text.trimChars name
  if name.isEmpty then none else some ⟨String.ofList name, String.ofList (Text.trimChars value)⟩

/-- A text without one semicolon at its end. -/
def dropSemicolon (text : List Char) : List Char := if text.getLast? = some ';' then text.dropLast else text

/-- The imports that a line declares. -/
def importsOf? (line : String) : Option (List Import) := do
  let body ← Text.after? "var ".toList (Text.trimChars line.toList)
  (splitTopLevel 0 (dropSemicolon body)).mapM importOf?

def itemOf (line : String) : HostItem :=
  match importsOf? line with
  | some imports => .declaration line imports
  | none => .text line

structure OpenBlock where
  name : String
  header : String
  body : Array String
deriving DecidableEq, Repr

def OpenBlock.start (name header : String) : OpenBlock := ⟨name, header, #[]⟩

def OpenBlock.push (b : OpenBlock) (line : String) : OpenBlock := { b with body := b.body.push line }

def OpenBlock.close (b : OpenBlock) (listing : Option String) : FunctionBlock :=
  ⟨b.name, b.header, b.body.toList, listing⟩

/-- What has been read: how many lines, the items they make, and the block that is open. -/
structure Reading where
  line : Nat
  items : Array HostItem
  opened : Option OpenBlock
deriving DecidableEq, Repr

namespace Reading

def start : Reading := ⟨0, #[], none⟩

/-- A block opens inside another one. -/
def nested (line : Nat) (inner outer : String) : Fault :=
  .malformedModule line s!"function '{inner}' starts before '{outer}' is closed"

/-- A block is open at the end. -/
def unclosed (line : Nat) (name : String) : Fault := .malformedModule line s!"function '{name}' is never closed"

/-- One more line that opens no block. -/
def plain (r : Reading) (line : String) : Reading :=
  match r.opened with
  | none => ⟨r.line + 1, r.items.push (itemOf line), none⟩
  | some block =>
    match Text.after? ['\x7d'] line.toList with
    | some rest => ⟨r.line + 1, r.items.push (.function (block.close (listingBehind? rest))), none⟩
    | none => ⟨r.line + 1, r.items, some (block.push line)⟩

/-- **One more line.** -/
def step (r : Reading) (line : String) : Except Fault Reading :=
  match headerName? line with
  | none => .ok (r.plain line)
  | some name =>
    match r.opened with
    | some block => .error (nested (r.line + 1) name block.name)
    | none => .ok ⟨r.line + 1, r.items, some (.start name line)⟩

def finish (r : Reading) : Except Fault HostModule :=
  match r.opened with
  | some block => .error (unclosed r.line block.name)
  | none => .ok ⟨r.items.toList⟩

end Reading

/-- **The module that a text is.** -/
def parse (text : String) : Except Fault HostModule := do
  let reading ← (Text.lines text).foldlM Reading.step .start
  reading.finish

theorem splitTopLevel_ne_nil (depth : Nat) (text : List Char) : splitTopLevel depth text ≠ [] := by
  cases text with
  | nil => simp [splitTopLevel]
  | cons c text =>
    unfold splitTopLevel
    split
    · simp
    · cases splitTopLevel (depthAfter depth c) text <;> simp [Text.intoFirst]

/-- **The parts with commas between them are the text.** -/
theorem intercalate_splitTopLevel (depth : Nat) (text : List Char) :
    [','].intercalate (splitTopLevel depth text) = text := by
  induction text generalizing depth with
  | nil => simp [splitTopLevel]
  | cons c text ih =>
    unfold splitTopLevel
    split
    · rename_i h
      rw [Text.intercalate_nil_cons _ (splitTopLevel_ne_nil 0 text), ih, h.1]; rfl
    · rw [Text.intercalate_intoFirst _ _ (splitTopLevel_ne_nil _ text), ih]

end Wordcode.HostModule
