import Wordcode.Host.Module
import Wordcode.Host.Placeholder
import Wordcode.Program.Basic
/-!
# Trampoline — bodies that jump into bytecode

A function that is interpreted keeps a body that hands over to the interpreter.  The body's placeholders become the
addresses of the bytecode they name.  A placeholder that names no bytecode stays and leaves a warning, which points at
it and counts the lines of the module's text.
-/
namespace Wordcode
namespace Trampoline

/-- The address of a function's bytecode; of several functions of a name, the first. -/
def address? (p : Program) (codeStart : UInt32) (name : String) : Option UInt32 :=
  (p.offsetOf? name).map fun offset => codeStart + offset.toUInt32

def fillItem (addr : String → Option UInt32) : HostItem → HostItem
  | .function f => .function { f with body := f.body.map (Placeholder.fillLine addr) }
  | item => item

/-- The placeholders of a line that have no address. -/
def unresolved (addr : String → Option UInt32) (line : String) : List (String × Span) :=
  (Placeholder.holesOf line).filter fun hole => (addr hole.1).isNone

/-- The placeholders of a line that have an address. -/
def resolved (addr : String → Option UInt32) (line : String) : List (String × Span) :=
  (Placeholder.holesOf line).filter fun hole => (addr hole.1).isSome

/-- The functions among items, each with the number of the first line of its body; the first item starts at `line`. -/
def bodies (line : Nat) : List HostItem → List (Nat × FunctionBlock)
  | [] => []
  | item :: more =>
    let behind := bodies (line + item.lines.length) more
    match item.block? with
    | some f => (line + 1, f) :: behind
    | none => behind

/-- The code of a warning about a placeholder that stays. -/
def unresolvedCode : String := "W201"

/-- The warning that a placeholder for `target` stays, on a line of the body of `caller`. -/
def warning (caller : String) (number : Nat) (line target : String) (span : Span) : Diagnostic :=
  { severity := .warning
    message := s!"Trampoline for '{target}' on line {number} has no bytecode and was left unpatched"
    function := some caller
    span := some span
    source := some line
    help := [s!"'{target}' must carry a listing that assembles"]
    code := some unresolvedCode }

def lineWarnings (addr : String → Option UInt32) (caller : String) (number : Nat) (line : String) : List Diagnostic :=
  (unresolved addr line).map fun (target, span) => warning caller number line target span

/-- The warnings of a function whose body starts at a line. -/
def bodyWarnings (addr : String → Option UInt32) (first : Nat) (f : FunctionBlock) : List Diagnostic :=
  (f.body.zipIdx first).flatMap fun (line, number) => lineWarnings addr f.name number line

/-- A module whose placeholders are filled, how many were, and the warnings about the others. -/
structure Patch where
  host : HostModule
  patched : Nat
  diagnostics : List Diagnostic
deriving DecidableEq, Repr

end Trampoline

/-- **The module with the addresses of a program's bytecode in place of its placeholders.** -/
def HostModule.patch (m : HostModule) (p : Program) (codeStart : UInt32) : Trampoline.Patch :=
  let addr := Trampoline.address? p codeStart
  { host := ⟨m.items.map (Trampoline.fillItem addr)⟩
    patched := (m.functions.flatMap fun f => f.body.flatMap (Trampoline.resolved addr)).length
    diagnostics := (Trampoline.bodies 1 m.items).flatMap fun (first, f) => Trampoline.bodyWarnings addr first f }

end Wordcode
