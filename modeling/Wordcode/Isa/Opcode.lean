import Wordcode.Text.Numeral
/-!
# Isa.Opcode — the instruction set

Seventeen opcodes, each with the byte that stands for it in bytecode, the mnemonic that stands for it in listings, and
the shape of its three operand bytes.  Byte and mnemonic both determine the opcode (`ofCode_code`,
`ofMnemonic?_mnemonic`).
-/
namespace Wordcode

inductive Opcode
  /-- Local x takes the integer in local y. -/
  | set
  /-- The local takes the native stack top. -/
  | getStackTop
  /-- The native stack top takes the local. -/
  | setStackTop
  /-- The local takes a 16-bit immediate, zero extended. -/
  | setImmediate
  | add
  | signedDiv
  | unsignedDiv
  | load8
  | load16
  | load32
  | store8
  | store16
  | store32
  /-- Jump by a signed number of words, counted from the branch itself, if the local is not zero. -/
  | branchIfTrue
  /-- Call a global target with arguments read from locals. -/
  | call
  /-- Leave the function with the local, coerced to the kind of the running interpreter. -/
  | ret
  /-- Function header: how many locals the function needs. -/
  | prologue
deriving DecidableEq, Repr

/-- How the three bytes after an opcode are read. -/
inductive OperandShape
  /-- Up to three local indices. -/
  | locals
  /-- A local index and a 16-bit immediate, low byte first. -/
  | localImmediate
  /-- A target, a signature index and the first argument. -/
  | call
  | prologue
deriving DecidableEq, Repr

/-- A byte that stands for no opcode. -/
structure InvalidOpcode where
  code : UInt8
deriving DecidableEq, Repr

def InvalidOpcode.message (e : InvalidOpcode) : String := "Invalid opcode: 0x" ++ Text.hexByte e.code

namespace Opcode

/-- Every opcode, by ascending code. -/
def all : List Opcode :=
  [set, getStackTop, setStackTop, setImmediate, add, signedDiv, unsignedDiv, load8, load16, load32, store8, store16,
   store32, branchIfTrue, call, ret, prologue]

def code : Opcode → UInt8
  | set => 0
  | getStackTop => 1
  | setStackTop => 2
  | setImmediate => 3
  | add => 4
  | signedDiv => 7
  | unsignedDiv => 8
  | load8 => 10
  | load16 => 11
  | load32 => 12
  | store8 => 13
  | store16 => 14
  | store32 => 15
  | branchIfTrue => 16
  | call => 253
  | ret => 254
  | prologue => 255

def mnemonic : Opcode → String
  | set => "SET"
  | getStackTop => "GETST"
  | setStackTop => "SETST"
  | setImmediate => "SETI"
  | add => "ADD"
  | signedDiv => "SDIV"
  | unsignedDiv => "UDIV"
  | load8 => "LOAD8"
  | load16 => "LOAD16"
  | load32 => "LOAD32"
  | store8 => "STORE8"
  | store16 => "STORE16"
  | store32 => "STORE32"
  | branchIfTrue => "BRT"
  | call => "CALL"
  | ret => "RET"
  | prologue => "FUNC"

def shape : Opcode → OperandShape
  | setImmediate | branchIfTrue => .localImmediate
  | call => .call
  | prologue => .prologue
  | _ => .locals

def ofCode (c : UInt8) : Except InvalidOpcode Opcode :=
  match all.find? (fun op => op.code == c) with
  | some op => .ok op
  | none => .error ⟨c⟩

/-- The opcode of a mnemonic; capitals matter. -/
def ofMnemonic? (name : String) : Option Opcode := all.find? (fun op => op.mnemonic == name)

theorem mem_all (op : Opcode) : op ∈ all := by cases op <;> decide

/-- **The code determines the opcode.** -/
theorem ofCode_code (op : Opcode) : ofCode op.code = .ok op := by cases op <;> rfl

/-- **The mnemonic determines the opcode.** -/
theorem ofMnemonic?_mnemonic (op : Opcode) : ofMnemonic? op.mnemonic = some op := by cases op <;> decide

theorem mnemonic_of_ofMnemonic? {name : String} {op : Opcode} (h : ofMnemonic? name = some op) :
    op.mnemonic = name := by
  simpa using List.find?_some h

theorem code_of_ofCode {c : UInt8} {op : Opcode} (h : ofCode c = .ok op) : op.code = c := by
  unfold ofCode at h
  split at h
  · rename_i op' hf
    cases h
    simpa using List.find?_some hf
  · cases h

end Opcode
end Wordcode
