import Wordcode.Fault
/-!
# Memory.Layout — where bytecode and stack go in static memory

Static memory starts at an absolute address, the base.  From there on come the data with the zeros declared behind it,
the bytecode, and the interpreter's stack; bytecode and stack start at multiples of eight, so that a frame can hold
doubles.  `plan` refuses a base that is no multiple of eight, then an end beyond the reach of 32-bit addresses.
-/
namespace Wordcode

structure Options where
  /-- The bytes kept for the interpreter's stack. -/
  stackCapacity : UInt32 := 1048576
  /-- The absolute address of the first byte of static memory. -/
  staticBase : UInt32 := 8
deriving DecidableEq, Repr

/-- Where everything is; offsets count from the base. -/
structure Layout where
  staticBase : UInt32
  /-- The bytes of static memory before the transform. -/
  dataLen : UInt32
  codeOffset : UInt32
  codeLen : UInt32
  stackOffset : UInt32
  stackCapacity : UInt32
  /-- The bytes of static memory after the transform, with the stack. -/
  staticSize : UInt32
deriving DecidableEq, Repr

namespace Layout

/-- What the starts of bytecode and stack are multiples of. -/
def alignment : Nat := 8

/-- The least multiple of the alignment that is not below `n`. -/
def alignUp (n : Nat) : Nat := (n + (alignment - 1)) / alignment * alignment

theorem le_alignUp (n : Nat) : n ≤ alignUp n := by simp only [alignUp, alignment]; omega

theorem alignUp_lt (n : Nat) : alignUp n < n + alignment := by simp only [alignUp, alignment]; omega

theorem dvd_alignUp (n : Nat) : alignment ∣ alignUp n := Nat.dvd_mul_left _ _

/-- No smaller multiple would do. -/
theorem alignUp_le {n m : Nat} (h : n ≤ m) (hm : alignment ∣ m) : alignUp n ≤ m := by
  obtain ⟨k, rfl⟩ := hm
  simp only [alignUp, alignment] at h ⊢
  omega

/-- **The layout of `codeLen` bytes of bytecode behind `dataLen` bytes of data.** -/
def plan (dataLen : UInt32) (codeLen : Nat) (o : Options) : Except Fault Layout :=
  if o.staticBase.toNat % alignment ≠ 0 then .error (.misalignedStaticBase o.staticBase)
  else
    let codeOffset := alignUp dataLen.toNat
    let stackOffset := alignUp (codeOffset + codeLen)
    let staticSize := stackOffset + o.stackCapacity.toNat
    let stop := o.staticBase.toNat + staticSize
    if stop < UInt32.size then
      .ok { staticBase := o.staticBase
            dataLen
            codeOffset := codeOffset.toUInt32
            codeLen := codeLen.toUInt32
            stackOffset := stackOffset.toUInt32
            stackCapacity := o.stackCapacity
            staticSize := staticSize.toUInt32 }
    else .error (.addressSpaceExhausted stop)

def codeStart (l : Layout) : UInt32 := l.staticBase + l.codeOffset

def stackStart (l : Layout) : UInt32 := l.staticBase + l.stackOffset

def stackMax (l : Layout) : UInt32 := l.stackStart + l.stackCapacity

/-- The bytes that are written out: all but the stack. -/
def blobLen (l : Layout) : Nat := l.stackOffset.toNat

/-- The bytes that the transform adds to static memory. -/
def growth (l : Layout) : UInt32 := l.staticSize - l.dataLen

end Layout
end Wordcode
