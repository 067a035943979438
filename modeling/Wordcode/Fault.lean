import Wordcode.Diagnostic
/-!
# Fault — what stops a transform

A fault ends the transform and leaves nothing behind.  What a transform can go on after is a warning instead.
-/
namespace Wordcode

inductive Fault
  /-- More call targets than one byte can tell apart. -/
  | symbolSpaceExhausted (count : Nat)
  /-- More signatures for one target than one byte can tell apart. -/
  | signatureSpaceExhausted (target : String)
  /-- A listing uses a mnemonic outside the instruction set. -/
  | unknownOpcode (function mnemonic : String)
  /-- A listing calls a name that is no call target. -/
  | unknownCallTarget (function target : String)
  /-- The initialised data is longer than the static memory declared for it. -/
  | memoryBudgetExceeded (dataLen : Nat) (staticSize : UInt32)
  /-- Static memory does not start at a multiple of eight. -/
  | misalignedStaticBase (base : UInt32)
  /-- The image would end beyond the reach of 32-bit addresses. -/
  | addressSpaceExhausted (size : Nat)
  /-- There is no static memory to put the bytecode into. -/
  | missingMemoryImage
  /-- The module's function blocks do not close one after the other. -/
  | malformedModule (line : Nat) (problem : String)
deriving DecidableEq, Repr

namespace Fault

def code : Fault → String
  | symbolSpaceExhausted .. => "E001"
  | signatureSpaceExhausted .. => "E002"
  | unknownOpcode .. => "E003"
  | unknownCallTarget .. => "E004"
  | memoryBudgetExceeded .. => "E005"
  | misalignedStaticBase .. => "E006"
  | addressSpaceExhausted .. => "E007"
  | missingMemoryImage => "E008"
  | malformedModule .. => "E009"

def message : Fault → String
  | symbolSpaceExhausted count => s!"Too many call targets: {count} (limit: 255)"
  | signatureSpaceExhausted target => s!"Too many call signatures for '{target}' (limit: 256)"
  | unknownOpcode function mnemonic => s!"Unknown opcode '{mnemonic}' in '{function}'"
  | unknownCallTarget function target => s!"Unknown call target '{target}' in '{function}'"
  | memoryBudgetExceeded dataLen staticSize =>
    s!"Static data is {dataLen} bytes but only {staticSize.toNat} bytes are declared"
  | misalignedStaticBase base => s!"Static base {base.toNat} is not 8-byte aligned"
  | addressSpaceExhausted size => s!"Memory image of {size} bytes exceeds the 32-bit address space"
  | missingMemoryImage => "Missing static memory image"
  | malformedModule line problem => s!"Malformed module at line {line}: {problem}"

def function? : Fault → Option String
  | unknownOpcode function _ => some function
  | unknownCallTarget function _ => some function
  | _ => none

def help : Fault → List String
  | symbolSpaceExhausted .. => ["Interpret fewer functions or import fewer primitives"]
  | unknownOpcode .. => ["The optimizer and this tool disagree on the instruction set"]
  | missingMemoryImage => ["Build with a separate memory initializer file"]
  | _ => []

def toDiagnostic (f : Fault) : Diagnostic :=
  { severity := .error, message := f.message, function := f.function?, span := none, source := none, help := f.help,
    code := some f.code }

end Fault
end Wordcode
