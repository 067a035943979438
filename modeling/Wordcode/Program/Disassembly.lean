import Wordcode.Program.Basic
import Wordcode.Symbols
import Wordcode.Text.Lines
/-!
# Program.Disassembly — a program as text

Each function is shown with its place, its length and its locals, each instruction with its address from the start of
the function.  Branch targets are numbered as labels by ascending address; a call is commented with the name of its
target and its signature, as far as they are known.
-/
namespace Wordcode
namespace Disassembly

/-- Instructions with their addresses, the first at `address`. -/
def addressed (address : Nat) : List Instruction → List (Nat × Instruction)
  | [] => []
  | i :: is => (address, i) :: addressed (address + i.encodedLen) is

/-- The address that a branch at `address` jumps to. -/
def target? (address : Nat) (i : Instruction) : Option Int :=
  i.branchOffset?.map fun offset => address + offset * wordSize

/-- **The branch targets of a function, each once, by ascending address**; a target's place is its number. -/
def labels (is : List Instruction) : List Int :=
  ((addressed 0 is).filterMap fun (address, i) => target? address i).eraseDups.mergeSort (· ≤ ·)

def labelName (number : Nat) : String := s!"L{number}"

/-- The label in front of an instruction. -/
def labelAt (labels : List Int) (address : Nat) : String :=
  match labels.idxOf? (address : Int) with
  | some number => labelName number ++ ":"
  | none => ""

/-- Where a branch goes: to a label, or else to an address. -/
def destination (labels : List Int) (target : Int) : String :=
  match labels.idxOf? target with
  | some number => s!" (to {labelName number})"
  | none => s!" (to @{target})"

def callee (p : Program) (symbols : SymbolTable) (target signature : UInt8) : String :=
  let name := (symbols.nameOf? target).getD "?"
  match p.registry.signature? target signature with
  | some s => s!"  ; {name} {s.text}"
  | none => s!"  ; {name}"

/-- What is said behind an instruction. -/
def remark (p : Program) (symbols : SymbolTable) (labels : List Int) (address : Nat) : Instruction → String
  | .call target signature _ => callee p symbols target signature
  | i@(.op ..) => ((target? address i).map (destination labels)).getD ""

def line (p : Program) (symbols : SymbolTable) (labels : List Int) (address : Nat) (i : Instruction) : String :=
  "  " ++ Text.padLeft 6 (toString address) ++ " " ++ Text.padLeft 4 (labelAt labels address) ++ "  " ++ i.text
    ++ remark p symbols labels address i

def heading (f : AssembledFunction) : String := s!"{f.name} @{f.offset} ({f.len} bytes, {f.locals.toNat} locals):"

def functionLines (p : Program) (symbols : SymbolTable) (f : AssembledFunction) : List String :=
  let labels := labels f.instructions
  heading f :: (addressed 0 f.instructions).map fun (address, i) => line p symbols labels address i

end Disassembly

/-- **The text of a program**: its functions, with an empty line between any two. -/
def Program.disassemble (p : Program) (symbols : SymbolTable) : String :=
  "\n".intercalate (p.functions.map fun f => Text.unlines (Disassembly.functionLines p symbols f))

end Wordcode
