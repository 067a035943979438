import Wordcode.Isa.Instruction
import Wordcode.Registry
/-!
# Program.Basic — bytecode and the functions in it

A program is one stream of bytes.  Each of its functions is a stretch of the stream: the encodings of the function's
instructions behind each other.
-/
namespace Wordcode

structure AssembledFunction where
  name : String
  /-- The place of its first byte in the stream. -/
  offset : Nat
  len : Nat
  /-- The locals that its header asks for. -/
  locals : UInt8
  instructions : List Instruction
deriving DecidableEq, Repr

/-- The bytes of instructions behind each other. -/
def encodeAll (is : List Instruction) : List UInt8 := is.flatMap Instruction.encode

/-- The locals that a header asks for; without a header, none. -/
def localCount : List Instruction → UInt8
  | .op .prologue n _ _ :: _ => n
  | _ => 0

/-- The function that instructions make at a place of the stream. -/
def AssembledFunction.place (name : String) (offset : Nat) (is : List Instruction) : AssembledFunction :=
  ⟨name, offset, (encodeAll is).length, localCount is, is⟩

/-- A program: the stream, its functions in order, and the signatures that its calls refer to. -/
structure Program where
  bytecode : List UInt8
  functions : List AssembledFunction
  registry : Registry
deriving DecidableEq, Repr

namespace Program

/-- The first function of a name. -/
def function? (p : Program) (name : String) : Option AssembledFunction := p.functions.find? fun f => f.name == name

/-- The place of the first function of a name. -/
def offsetOf? (p : Program) (name : String) : Option Nat := (p.function? name).map AssembledFunction.offset

end Program

end Wordcode
