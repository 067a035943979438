import Wordcode.Memory.Layout
/-!
# Memory.Image — the contents of static memory after a transform

The data, zeros up to the bytecode, the bytecode, and zeros up to the stack.  Data that is longer than the static size
declared for it is refused before anything is planned.
-/
namespace Wordcode

/-- The initialised data of a module and the size declared for it; what the data leaves is zero. -/
structure StaticMemory where
  data : List UInt8
  size : UInt32
deriving DecidableEq, Repr

/-- Data that fills the size declared for it. -/
def StaticMemory.full (data : List UInt8) : StaticMemory := ⟨data, data.length.toUInt32⟩

structure Image where
  layout : Layout
  blob : List UInt8
deriving DecidableEq, Repr

namespace Image

/-- The bytes of a layout: data and bytecode at their places, zeros between and behind them. -/
def fill (l : Layout) (data code : List UInt8) : List UInt8 :=
  ((data.rightpad l.codeOffset.toNat 0) ++ code).rightpad l.blobLen 0

/-- **The image of bytecode behind static memory.** -/
def build (m : StaticMemory) (code : List UInt8) (o : Options) : Except Fault Image :=
  if m.size.toNat < m.data.length then .error (.memoryBudgetExceeded m.data.length m.size)
  else do
    let layout ← Layout.plan m.size code.length o
    return ⟨layout, fill layout m.data code⟩

/-- The bytecode as it stands in the image. -/
def code (i : Image) : List UInt8 := (i.blob.drop i.layout.codeOffset.toNat).take i.layout.codeLen.toNat

end Image
end Wordcode
