import Wordcode.Host.Module
import Wordcode.Listing.Reader
import Wordcode.Program.Basic
import Wordcode.Symbols
/-!
# Program.Assembler — functions added to a stream, one listing after the other

A listing that cannot be read leaves a warning and nothing else.  One that can be read is resolved, call by call: the
target gets its id, the signature its index for that target.  A call that cannot be resolved is a fault; the signatures
registered before it stay, but no byte and no function is added.
-/
namespace Wordcode

structure Assembler where
  registry : Registry
  bytecode : List UInt8
  functions : List AssembledFunction
  diagnostics : List Diagnostic
deriving DecidableEq, Repr

/-- The instruction that a symbolic one means, and the registry with its signature. -/
def resolve (symbols : SymbolTable) (function : String) (r : Registry) :
    SymbolicInstr → Except Fault Instruction × Registry
  | .op o x y z => (.ok (.op o x y z), r)
  | .call target signature args =>
    match symbols.idOf? target with
    | none => (.error (.unknownCallTarget function target), r)
    | some id =>
      match r.register id signature with
      | (some index, r) => (.ok (.call id index args), r)
      | (none, r) => (.error (.signatureSpaceExhausted target), r)

/-- The instructions that symbolic ones mean, up to the first that cannot be resolved. -/
def resolveAll (symbols : SymbolTable) (function : String) :
    Registry → List SymbolicInstr → Except Fault (List Instruction) × Registry
  | r, [] => (.ok [], r)
  | r, i :: is =>
    match resolve symbols function r i with
    | (.error f, r) => (.error f, r)
    | (.ok j, r) =>
      match resolveAll symbols function r is with
      | (.error f, r) => (.error f, r)
      | (.ok js, r) => (.ok (j :: js), r)

/-- The listings of a module, with the functions they belong to. -/
def HostModule.listings (m : HostModule) : List (String × String) :=
  m.functions.filterMap fun f => f.listing.map fun listing => (f.name, listing)

namespace Assembler

def empty : Assembler := ⟨.empty, [], [], []⟩

def warn (a : Assembler) (d : Diagnostic) : Assembler := { a with diagnostics := a.diagnostics ++ [d] }

/-- One more function at the end of the stream. -/
def append (a : Assembler) (r : Registry) (name : String) (is : List Instruction) : Assembler :=
  { a with
    registry := r
    bytecode := a.bytecode ++ encodeAll is
    functions := a.functions ++ [.place name a.bytecode.length is] }

/-- **One more listing.** -/
def addFunction (symbols : SymbolTable) (a : Assembler) (name listing : String) : Except Fault Unit × Assembler :=
  match Listing.parse listing with
  | .error e =>
    match e.escalate name with
    | some f => (.error f, a)
    | none => (.ok (), a.warn (e.toDiagnostic name listing))
  | .ok is =>
    match resolveAll symbols name a.registry is with
    | (.error f, r) => (.error f, { a with registry := r })
    | (.ok is, r) => (.ok (), a.append r name is)

/-- The listings in order, up to the first fault. -/
def addAll (symbols : SymbolTable) : Assembler → List (String × String) → Except Fault Assembler
  | a, [] => .ok a
  | a, (name, listing) :: more =>
    match a.addFunction symbols name listing with
    | (.error f, _) => .error f
    | (.ok (), a) => addAll symbols a more

def program (a : Assembler) : Program := ⟨a.bytecode, a.functions, a.registry⟩

end Assembler

/-- **The program of a module's listings, with the warnings about listings left out.** -/
def HostModule.assemble (m : HostModule) (symbols : SymbolTable) : Except Fault (Program × List Diagnostic) := do
  let a ← Assembler.addAll symbols .empty m.listings
  return (a.program, a.diagnostics)

end Wordcode
