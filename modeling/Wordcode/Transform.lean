import Wordcode.Host.Reader
import Wordcode.Interpreter.Routine
import Wordcode.Memory.Image
import Wordcode.Program.Assembler
import Wordcode.Program.Disassembly
import Wordcode.Trampoline
/-!
# Transform — functions moved into the interpreter

The call targets get their ids, the listings are assembled, the bytecode is laid out in static memory, the placeholders
take the addresses of the bytecode, and the interpreter's routines go behind the module.  The first stage that cannot be
done ends the transform with its fault.
-/
namespace Wordcode

structure Artifacts where
  /-- The new text of the module: placeholders filled, listings gone, the bounds of the stack declared, the
  interpreter's routines behind everything. -/
  moduleText : String
  /-- The new contents of static memory, without the stack. -/
  memory : List UInt8
  layout : Layout
  bindings : Bindings
  symbols : SymbolTable
  program : Program
  interpreters : List Interpreter.Routine
  /-- What was left out: listings first, then placeholders. -/
  diagnostics : List Diagnostic
deriving Repr

namespace Artifacts

/-- The absolute addresses of the functions in the program. -/
def entryPoints (a : Artifacts) : List (String × UInt32) :=
  a.program.functions.map fun f => (f.name, a.layout.codeStart + f.offset.toUInt32)

def disassembly (a : Artifacts) : String := a.program.disassemble a.symbols

end Artifacts

namespace HostModule

def symbols (m : HostModule) : Except Fault SymbolTable :=
  SymbolTable.build m.imports (m.functions.map FunctionBlock.name)

/-- What comes of a module once its program is placed in memory. -/
def finish (m : HostModule) (symbols : SymbolTable) (p : Program) (warnings : List Diagnostic) (image : Image) :
    Artifacts :=
  let patch := m.patch p image.layout.codeStart
  let bindings := Bindings.ofLayout image.layout
  let interpreters := Interpreter.routines p.registry symbols
  { moduleText := patch.host.render bindings.imports (interpreters.flatMap Interpreter.Routine.lines)
    memory := image.blob
    layout := image.layout
    bindings
    symbols
    program := p
    interpreters
    diagnostics := warnings ++ patch.diagnostics }

/-- **The transform of a module**, given its static memory. -/
def transform (m : HostModule) (memory : Option StaticMemory) (o : Options) : Except Fault Artifacts := do
  match memory with
  | none => throw .missingMemoryImage
  | some memory =>
    let symbols ← m.symbols
    let (program, warnings) ← m.assemble symbols
    let image ← Image.build memory program.bytecode o
    return m.finish symbols program warnings image

end HostModule

def transform (text : String) (memory : Option StaticMemory) (o : Options) : Except Fault Artifacts := do
  let m ← HostModule.parse text
  m.transform memory o

end Wordcode
