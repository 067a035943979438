import Wordcode.Isa.Signature
/-!
# Interpreter.Code — the part of asm.js that an interpreter is written in

Expressions over variables and typed views of the heap, and one-line statements.  Printing puts an operand in
parentheses unless it binds more tightly than the operator around it, so that no two operators of one rank stand beside
each other.  A coercion of a value is written tightly (`x|0`), an operation with blanks (`x | 0`).
-/
namespace Wordcode.Interpreter

inductive View
  | int8
  | int16
  | int32
  | byte
  | float64
deriving DecidableEq, Repr

def View.name : View → String
  | int8 => "HEAP8"
  | int16 => "HEAP16"
  | int32 => "HEAP32"
  | byte => "HEAPU8"
  | float64 => "HEAPF64"

inductive Operator
  | divide
  | add
  | shiftLeft
  | shiftRight
  | shiftRightZero
  | greater
  | notEqual
  | and
  | or
deriving DecidableEq, Repr

namespace Operator

def symbol : Operator → String
  | divide => "/"
  | add => "+"
  | shiftLeft => "<<"
  | shiftRight => ">>"
  | shiftRightZero => ">>>"
  | greater => ">"
  | notEqual => "!="
  | and => "&"
  | or => "|"

def rank : Operator → Nat
  | divide => 7
  | add => 6
  | shiftLeft | shiftRight | shiftRightZero => 5
  | greater => 4
  | notEqual => 3
  | and => 2
  | or => 1

end Operator

inductive Expr
  | var (name : String)
  | num (n : Nat)
  | doubleZero
  /-- An element of a view; the index counts elements. -/
  | load (view : View) (index : Expr)
  | op (o : Operator) (a b : Expr)
  | asInt (e : Expr)
  | asUnsigned (e : Expr)
  | asDouble (e : Expr)
deriving DecidableEq, Repr

namespace Expr

def rank : Expr → Nat
  | var _ | num _ | doubleZero | load _ _ => 9
  | asDouble _ => 8
  | op o _ _ => o.rank
  | asUnsigned _ => Operator.shiftRightZero.rank
  | asInt _ => Operator.or.rank

/-- The text of an operand of an operator of rank `outer`. -/
def operand (outer : Nat) (e : Expr) (text : String) : String :=
  if outer < e.rank then text else "(" ++ text ++ ")"

def text : Expr → String
  | var name => name
  | num n => toString n
  | doubleZero => "0.0"
  | load view index => view.name ++ "[" ++ index.text ++ "]"
  | op o a b => operand o.rank a a.text ++ " " ++ o.symbol ++ " " ++ operand o.rank b b.text
  | asInt e => operand Operator.or.rank e e.text ++ "|0"
  | asUnsigned e => operand Operator.shiftRightZero.rank e e.text ++ ">>>0"
  | asDouble e => "+" ++ operand 8 e e.text

end Expr

/-- A call whose result is coerced to what the callee returns, and dropped. -/
structure CallStmt where
  callee : String
  args : List Expr
  ret : Option ValueKind
deriving DecidableEq, Repr

def CallStmt.text (c : CallStmt) : String :=
  let call := c.callee ++ "(" ++ ", ".intercalate (c.args.map Expr.text) ++ ")"
  match c.ret with
  | none => call ++ ";"
  | some .int => call ++ "|0;"
  | some .float | some .double => "+" ++ call ++ ";"

inductive Stmt
  /-- Integer variables that start as zero. -/
  | declare (names : List String)
  | assign (place value : Expr)
  | abort
  | abortIf (condition : Expr)
  /-- Go on with the next turn of the loop, at another place in the bytecode. -/
  | jumpIf (condition : Expr) (pc target : Expr)
  | call (c : CallStmt)
  | leave
  /-- Go on with the next turn of the loop. -/
  | again
  | ret
  | retValue (e : Expr)
deriving DecidableEq, Repr

def Stmt.text : Stmt → String
  | declare names => "var " ++ ", ".intercalate (names.map fun name => name ++ " = 0") ++ ";"
  | assign place value => place.text ++ " = " ++ value.text ++ ";"
  | abort => "abort();"
  | abortIf c => "if (" ++ c.text ++ ") abort();"
  | jumpIf c pc target => "if (" ++ c.text ++ ") \x7b " ++ pc.text ++ " = " ++ target.text ++ "; continue; \x7d"
  | call c => c.text
  | leave => "break;"
  | again => "continue;"
  | ret => "return;"
  | retValue e => "return " ++ e.text ++ ";"

/-- Lines one step further in. -/
def indent (ls : List String) : List String := ls.map (" " ++ ·)

/-- A head, the lines that belong to it one step further in, and a closing brace. -/
def block (head : String) (body : List String) : List String := (head ++ " \x7b") :: indent body ++ ["\x7d"]

end Wordcode.Interpreter
