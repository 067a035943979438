import Wordcode.Interpreter.Routine
/-!
# Interpreter.Machine — what the statements of a routine do to integers

The numbers are integers.  A coercion and every operator on bits takes the low 32 bits of them and gives a number with a
sign, but for the shift that fills with zeros; sums and comparisons take them as they are.  Values that are no integers,
stores into the heap and jumps are left out: what needs them has no result here.
-/
namespace Wordcode.Interpreter

/-- The low 32 bits of a number. -/
def word (v : Int) : BitVec 32 := BitVec.ofInt 32 v

/-- How far a number shifts: its low five bits. -/
def shiftCount (v : Int) : Nat := (word v).toNat % 32

def truth (p : Prop) [Decidable p] : Int := if p then 1 else 0

/-- What an operator makes of two integers; a quotient need not be one. -/
def Operator.apply? : Operator → Int → Int → Option Int
  | divide, _, _ => none
  | add, a, b => some (a + b)
  | shiftLeft, a, b => some (word a <<< shiftCount b).toInt
  | shiftRight, a, b => some ((word a).sshiftRight (shiftCount b)).toInt
  | shiftRightZero, a, b => some ((word a >>> shiftCount b).toNat : Int)
  | greater, a, b => some (truth (b < a))
  | notEqual, a, b => some (truth (a ≠ b))
  | and, a, b => some (word a &&& word b).toInt
  | or, a, b => some (word a ||| word b).toInt

/-- The variables, and the byte that a load finds at an index: a load outside of the heap finds zero. -/
structure Machine where
  vars : String → Int
  heap : Int → UInt8

namespace Machine

def set (m : Machine) (name : String) (v : Int) : Machine :=
  { m with vars := fun other => if other = name then v else m.vars other }

/-- The sixteen bits at an address, low byte first. -/
def halfAt (m : Machine) (address : Int) : BitVec 16 :=
  (m.heap (address + 1)).toBitVec ++ (m.heap address).toBitVec

/-- The 32 bits at an address, low byte first. -/
def wordAt (m : Machine) (address : Int) : BitVec 32 := m.halfAt (address + 2) ++ m.halfAt address

/-- The element of a view at an index, if it is an integer. -/
def load? (m : Machine) : View → Int → Option Int
  | .int8, i => some (m.heap i).toBitVec.toInt
  | .int16, i => some (m.halfAt (2 * i)).toInt
  | .int32, i => some (m.wordAt (4 * i)).toInt
  | .byte, i => some ((m.heap i).toNat : Int)
  | .float64, _ => none

end Machine

/-- The value of an expression, if it is an integer. -/
def Expr.eval? (m : Machine) : Expr → Option Int
  | var name => some (m.vars name)
  | num n => some (n : Int)
  | doubleZero => some 0
  | load view index => (index.eval? m).bind (m.load? view)
  | op o a b => (a.eval? m).bind fun x => (b.eval? m).bind fun y => o.apply? x y
  | asInt e => (e.eval? m).map fun v => (word v).toInt
  | asUnsigned e => (e.eval? m).map fun v => ((word v).toNat : Int)
  | asDouble e => e.eval? m

inductive Outcome
  | next (m : Machine)
  | aborted

/-- What a statement does; one that stores into the heap, or goes on elsewhere than behind itself, is left out. -/
def Stmt.exec? (m : Machine) : Stmt → Option Outcome
  | declare names => some (.next (names.foldl (fun m name => m.set name 0) m))
  | assign (.var name) value => (value.eval? m).map fun v => .next (m.set name v)
  | abort => some .aborted
  | abortIf c => (c.eval? m).map fun v => if v = 0 then .next m else .aborted
  | _ => none

/-- What statements do one after the other; nothing is done behind one that aborts. -/
def execAll? (m : Machine) : List Stmt → Option Outcome
  | [] => some (.next m)
  | s :: more =>
    match s.exec? m with
    | some (.next m) => execAll? m more
    | stop => stop

/-- The entry is left by aborting. -/
def Routine.Aborts (r : Routine) (m : Machine) : Prop := execAll? m r.entry = some .aborted

/-- The entry is passed, and the loop is reached. -/
def Routine.Enters (r : Routine) (m : Machine) : Prop := ∃ m', execAll? m r.entry = some (.next m')

@[simp] theorem word_toInt (x : BitVec 32) : word x.toInt = x := BitVec.ofInt_toInt

@[simp] theorem apply?_add (a b : Int) : Operator.add.apply? a b = some (a + b) := rfl

/-- Coercing by an operator that changes nothing. -/
@[simp] theorem apply?_or_zero (v : Int) : Operator.or.apply? v 0 = some (word v).toInt := by
  show some (word v ||| 0#32).toInt = _
  rw [BitVec.or_zero]

@[simp] theorem apply?_shiftRight_zero (v : Int) : Operator.shiftRight.apply? v 0 = some (word v).toInt := by
  show some ((word v).sshiftRight 0).toInt = _
  rw [BitVec.sshiftRight_zero]

theorem word_add (a b : Int) : word (a + b) = word a + word b := BitVec.ofInt_add a b

theorem word_natCast (n : Nat) : word n = BitVec.ofNat 32 n := BitVec.ofInt_natCast 32 n

variable (m : Machine)

theorem eval?_integer (e : Expr) : (integer e).eval? m = (e.eval? m).map fun v => (word v).toInt := by
  unfold integer
  cases h : e.eval? m <;> simp [Expr.eval?, h]

theorem eval?_plus {a b : Expr} {x y : Int} (ha : a.eval? m = some x) (hb : b.eval? m = some y) :
    (plus a b).eval? m = some (word (x + y)).toInt := by
  unfold plus
  simp [Expr.eval?, ha, hb]

theorem eval?_byteAt {e : Expr} {x : Int} (h : e.eval? m = some x) :
    (byteAt e).eval? m = some ((m.heap (word x).toInt).toNat : Int) := by
  unfold byteAt
  simp [Expr.eval?, Machine.load?, h]

theorem exec?_assign {value : Expr} {v : Int} (h : value.eval? m = some v) (name : String) :
    (Stmt.assign (.var name) value).exec? m = some (.next (m.set name v)) := by
  rw [Stmt.exec?, h]
  rfl

theorem execAll?_cons_of_next {s : Stmt} {m' : Machine} (h : s.exec? m = some (.next m')) (more : List Stmt) :
    execAll? m (s :: more) = execAll? m' more := by
  rw [execAll?, h]

theorem execAll?_cons_of_aborted {s : Stmt} (h : s.exec? m = some .aborted) (more : List Stmt) :
    execAll? m (s :: more) = some .aborted := by
  rw [execAll?, h]

end Wordcode.Interpreter
