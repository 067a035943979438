import Wordcode.Interpreter.Code
import Wordcode.Isa.Instruction
import Wordcode.Memory.Bindings
import Wordcode.Registry
import Wordcode.Symbols
import Wordcode.Text.Lines
/-!
# Interpreter.Routine — the loops that run bytecode

One routine for each kind of result.  A routine takes the address of a function header, reserves the frame on the
interpreter's stack, and then fetches and dispatches words until one returns.  Every opcode but the header has one case;
the case of calls tells targets and their signatures apart, one inlined call for each registered signature.

A local of index `l` is the eight bytes at `sp + (l << 3)`, read as an integer or as a double.
-/
namespace Wordcode.Interpreter

inductive Kind
  | void
  | int
  | double
deriving DecidableEq, Repr

namespace Kind

/-- Every kind, in the order the routines are written. -/
def all : List Kind := [void, int, double]

def name : Kind → String
  | void => "emterpret"
  | int => "emterpret_i"
  | double => "emterpret_d"

end Kind

/-! ## Operands -/

def pc : Expr := .var "pc"

def sp : Expr := .var "sp"

/-- The word being interpreted. -/
def inst : Expr := .var "inst"

def lx : Expr := .var "lx"

def ly : Expr := .var "ly"

def lz : Expr := .var "lz"

/-- The top of the interpreter's stack. -/
def stackTop : Expr := .var Bindings.stackTop

/-- The limit of the interpreter's stack. -/
def stackMax : Expr := .var Bindings.stackMax

/-- The top of the native stack. -/
def nativeTop : Expr := .var "STACKTOP"

def plus (a b : Expr) : Expr := .op .or (.op .add a b) (.num 0)

def integer (e : Expr) : Expr := .op .or e (.num 0)

/-- The byte of the bytecode at an address. -/
def byteAt (address : Expr) : Expr := .load .byte (.op .shiftRight address (.num 0))

/-- The bytecode's byte `n` places behind the current one. -/
def byteBehind (n : Nat) : Expr := byteAt (.op .add pc (.num n))

def slot (l : Expr) : Expr := .op .add sp (.op .shiftLeft l (.num 3))

/-- A local seen as an integer. -/
def intSlot (l : Expr) : Expr := .load .int32 (.op .shiftRight (slot l) (.num 2))

/-- A local seen as a double. -/
def doubleSlot (l : Expr) : Expr := .load .float64 (.op .shiftRight (slot l) (.num 3))

def intValue (l : Expr) : Expr := .asInt (intSlot l)

def unsignedValue (l : Expr) : Expr := .asUnsigned (intSlot l)

def doubleValue (l : Expr) : Expr := .asDouble (doubleSlot l)

/-- The element of a view at the address in a local; `shift` turns bytes into elements. -/
def element (view : View) (shift : Nat) (l : Expr) : Expr := .load view (.op .shiftRight (intSlot l) (.num shift))

/-! ## Cases -/

/-- What leaves a function of a kind. -/
def returnStmt : Kind → Stmt
  | .void => .ret
  | .int => .retValue (intValue lx)
  | .double => .retValue (doubleValue lx)

/-- **What an opcode does**, for those that one line is enough for: a header is met only at the entry, and a call
depends on the registry. -/
def action? (kind : Kind) : Opcode → Option (List Stmt)
  | .set => some [.assign (intSlot lx) (intValue ly)]
  | .getStackTop => some [.assign (intSlot lx) nativeTop]
  | .setStackTop => some [.assign nativeTop (intValue lx)]
  | .setImmediate => some [.assign (intSlot lx) (.op .shiftRightZero inst (.num 16))]
  | .add => some [.assign (intSlot lx) (integer (.op .add (intValue ly) (intValue lz)))]
  | .signedDiv => some [.assign (intSlot lx) (integer (.op .divide (intValue ly) (intValue lz)))]
  | .unsignedDiv =>
    some [.assign (intSlot lx) (.op .shiftRightZero (.op .divide (unsignedValue ly) (unsignedValue lz)) (.num 0))]
  | .load8 => some [.assign (intSlot lx) (element .int8 0 ly)]
  | .load16 => some [.assign (intSlot lx) (element .int16 1 ly)]
  | .load32 => some [.assign (intSlot lx) (element .int32 2 ly)]
  | .store8 => some [.assign (element .int8 0 lx) (intValue ly)]
  | .store16 => some [.assign (element .int16 1 lx) (intValue ly)]
  | .store32 => some [.assign (element .int32 2 lx) (intValue ly)]
  | .branchIfTrue =>
    some [.jumpIf (intValue lx) pc (plus pc (.op .shiftLeft (.op .shiftRight inst (.num 16)) (.num 2)))]
  | .ret => some [.assign stackTop sp, returnStmt kind]
  | .call => none
  | .prologue => none

/-- An argument of a call, read from the local whose index stands behind the call's first three bytes. -/
def argument (index : Nat) : ValueKind → Expr
  | .int => intValue (byteBehind (3 + index))
  | .float | .double => doubleValue (byteBehind (3 + index))

/-- The call of a target with a signature. -/
def callOf (name : String) (s : Signature) : CallStmt := ⟨name, s.params.mapIdx argument, s.ret⟩

/-- The calls of a target with one of its signatures. -/
structure SignatureCase where
  index : Nat
  call : CallStmt
  advance : Nat
deriving DecidableEq, Repr

structure TargetCase where
  target : UInt8
  signatures : List SignatureCase
deriving DecidableEq, Repr

inductive Case
  /-- An opcode that one line is enough for. -/
  | inline (code : UInt8) (body : List Stmt)
  | calls (code : UInt8) (targets : List TargetCase)
deriving DecidableEq, Repr

/-- The case of a signature at its index. -/
def signatureCase (name : String) (index : Nat) (s : Signature) : SignatureCase :=
  ⟨index, callOf name s, Instr.callLen s.arity⟩

/-- The cases of the registered targets, by ascending id; a target without a name cannot be called. -/
def targetCases (r : Registry) (symbols : SymbolTable) : List TargetCase :=
  r.groups.filterMap fun (target, signatures) =>
    (symbols.nameOf? target).map fun name => ⟨target, signatures.mapIdx (signatureCase name)⟩

def case? (r : Registry) (symbols : SymbolTable) (kind : Kind) (o : Opcode) : Option Case :=
  if o = .call then some (.calls o.code (targetCases r symbols)) else (action? kind o).map (.inline o.code)

/-! ## Routines -/

structure Routine where
  kind : Kind
  /-- What is done once, at a function header. -/
  entry : List Stmt
  /-- What takes the next word apart. -/
  fetch : List Stmt
  cases : List Case
  step : Stmt
  exit : List Stmt
deriving DecidableEq, Repr

/-- Only a function header may be entered; its frame has to fit on the stack. -/
def entryStmts : List Stmt :=
  [.assign pc (integer pc),
   .declare ["sp", "inst", "lx", "ly", "lz"],
   .assign sp stackTop,
   .abortIf (.op .notEqual (integer (byteAt pc)) (.num Opcode.prologue.code.toNat)),
   .assign stackTop (plus stackTop (.op .shiftLeft (byteBehind 1) (.num 3))),
   .abortIf (.op .greater (integer stackTop) (integer stackMax)),
   .assign pc (plus pc (.num wordSize))]

/-- **The parts of a word**: the opcode is the low byte, the operands follow upwards. -/
def fetchStmts : List Stmt :=
  [.assign inst (integer (.load .int32 (.op .shiftRight pc (.num 2)))),
   .assign lx (.op .and (.op .shiftRight inst (.num 8)) (.num 255)),
   .assign ly (.op .and (.op .shiftRight inst (.num 16)) (.num 255)),
   .assign lz (.op .shiftRightZero inst (.num 24))]

def opcodeExpr : Expr := .op .and inst (.num 255)

/-- What a routine of a kind returns if its loop is left. -/
def exitStmts : Kind → List Stmt
  | .void => []
  | .int => [.retValue (.num 0)]
  | .double => [.retValue .doubleZero]

/-- **The routine of a kind** for the calls in a registry. -/
def routine (r : Registry) (symbols : SymbolTable) (kind : Kind) : Routine :=
  { kind
    entry := entryStmts
    fetch := fetchStmts
    cases := Opcode.all.filterMap (case? r symbols kind)
    step := .assign pc (plus pc (.num wordSize))
    exit := exitStmts kind }

/-! ## Text -/

/-- A choice by the value of an expression; a value without a case aborts. -/
def choice (subject : Expr) (cases : List String) : List String :=
  block ("switch (" ++ subject.text ++ ")") (cases ++ ["default: " ++ Stmt.abort.text])

def caseHead (label : Nat) : String := s!"case {label}:"

namespace SignatureCase

/-- What the case of a signature does. -/
def stmts (c : SignatureCase) : List Stmt :=
  [.call c.call, .assign pc (plus pc (.num c.advance)), .again]

def lines (c : SignatureCase) : List String := block (caseHead c.index) (c.stmts.map Stmt.text)

end SignatureCase

def TargetCase.lines (c : TargetCase) : List String :=
  block (caseHead c.target.toNat)
    (choice (integer ly) (c.signatures.flatMap SignatureCase.lines) ++ [Stmt.leave.text])

def Case.lines : Case → List String
  | inline code body => [" ".intercalate (caseHead code.toNat :: (body ++ [Stmt.leave]).map Stmt.text)]
  | calls code targets =>
    block (caseHead code.toNat) (choice (integer lx) (targets.flatMap TargetCase.lines) ++ [Stmt.leave.text])

namespace Routine

def loopLines (r : Routine) : List String :=
  block "while (1)"
    (r.fetch.map Stmt.text ++ choice opcodeExpr (r.cases.flatMap Case.lines) ++ [r.step.text])

def lines (r : Routine) : List String :=
  block ("function " ++ r.kind.name ++ "(pc)") (r.entry.map Stmt.text ++ r.loopLines ++ r.exit.map Stmt.text)

/-- **The text of a routine.** -/
def text (r : Routine) : String := Text.unlines r.lines

end Routine

def routines (r : Registry) (symbols : SymbolTable) : List Routine := Kind.all.map (routine r symbols)

end Wordcode.Interpreter
