import Wordcode.Isa.Opcode
import Wordcode.Isa.Signature
import Wordcode.Text.Column
/-!
# Isa.Instruction — instructions, symbolic and resolved, and their bytes

An instruction is one word of four bytes, but for a call, whose argument bytes follow the first three and are padded
with zeros to whole words.  A call names its target and its signature: by symbol and in full in a listing, by one byte
each in bytecode.  The encoding is as long as `encodedLen` says (`length_encode`), whole words (`dvd_encodedLen`), and
never empty (`encodedLen_pos`).
-/
namespace Wordcode

def wordSize : Nat := 4

/-- An instruction, for any way `τ` to name call targets and any way `σ` to name signatures. -/
inductive Instr (τ σ : Type)
  /-- One word: an opcode and its three operand bytes. -/
  | op (opcode : Opcode) (x y z : UInt8)
  /-- A call, with the index of one local per argument. -/
  | call (target : τ) (signature : σ) (args : List UInt8)
deriving DecidableEq, Repr

/-- An instruction as listings have it: the target by its name, the signature in full. -/
abbrev SymbolicInstr := Instr String Signature

/-- An instruction as bytecode has it: the target by its id, the signature by its index for that target. -/
abbrev Instruction := Instr UInt8 UInt8

/-- A number of sixteen bits, low byte first. -/
def halfword (low high : UInt8) : Nat := low.toNat + 256 * high.toNat

namespace Instr

variable {τ σ : Type}

def opcode : Instr τ σ → Opcode
  | op o _ _ _ => o
  | call _ _ _ => .call

/-- The bytes of a call with `arity` arguments: whole words for the three leading bytes and the arguments. -/
def callLen (arity : Nat) : Nat := (3 + arity + (wordSize - 1)) / wordSize * wordSize

def encodedLen : Instr τ σ → Nat
  | op _ _ _ _ => wordSize
  | call _ _ args => callLen args.length

def immediate? : Instr τ σ → Option Nat
  | op .setImmediate _ low high => some (halfword low high)
  | _ => none

/-- How many words a branch jumps, from itself and with a sign. -/
def branchOffset? : Instr τ σ → Option Int
  | op .branchIfTrue _ low high => some (Int.bmod (halfword low high) 65536)
  | _ => none

theorem dvd_callLen (arity : Nat) : wordSize ∣ callLen arity := Nat.dvd_mul_left _ _

theorem le_callLen (arity : Nat) : 3 + arity ≤ callLen arity := by simp only [callLen, wordSize]; omega

theorem callLen_lt (arity : Nat) : callLen arity < 3 + arity + wordSize := by simp only [callLen, wordSize]; omega

/-- **An instruction is whole words.** -/
theorem dvd_encodedLen (i : Instr τ σ) : wordSize ∣ i.encodedLen := by
  cases i with
  | op => exact Nat.dvd_refl _
  | call => exact dvd_callLen _

/-- **An instruction has at least one byte.** -/
theorem encodedLen_pos (i : Instr τ σ) : 0 < i.encodedLen := by
  cases i with
  | op => simp [encodedLen, wordSize]
  | call => exact Nat.lt_of_lt_of_le (by omega) (le_callLen _)

end Instr

namespace Instruction

def encode : Instruction → List UInt8
  | .op o x y z => [o.code, x, y, z]
  | .call target signature args =>
    List.rightpad (Instr.callLen args.length) 0 (Opcode.call.code :: target :: signature :: args)

/-- **The encoding is as long as announced.** -/
theorem length_encode (i : Instruction) : i.encode.length = i.encodedLen := by
  cases i with
  | op => rfl
  | call t s args =>
    have := Instr.le_callLen args.length
    simp only [encode, List.rightpad, List.length_append, List.length_cons, List.length_replicate, Instr.encodedLen]
    omega

def showLocal (index : UInt8) : String := s!"l{index.toNat}"

/-- The operands of an instruction as a disassembly shows them. -/
def showOperands : Instruction → String
  | i@(.op o x y z) =>
    match o.shape with
    | .localImmediate =>
      match i.branchOffset? with
      | some offset => s!"{showLocal x}, {offset}"
      | none => s!"{showLocal x}, {halfword y z}"
    | .prologue => toString x.toNat
    | .locals | .call => ", ".intercalate [showLocal x, showLocal y, showLocal z]
  | .call target signature args =>
    s!"#{target.toNat}/{signature.toNat} (" ++ ", ".intercalate (args.map showLocal) ++ ")"

/-- An instruction as a disassembly shows it: the mnemonic in eight columns, then the operands. -/
def text (i : Instruction) : String := Text.padRight 8 i.opcode.mnemonic ++ " " ++ i.showOperands

end Instruction
end Wordcode
