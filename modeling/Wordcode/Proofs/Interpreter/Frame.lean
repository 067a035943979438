import Wordcode.Interpreter.Machine
import Wordcode.Proofs.Memory
/-!
# Proofs.Interpreter.Frame — what the check for stack overflow decides

The entry of a routine puts the frame behind the stack's top and compares the frame's end with the limit as numbers with
a sign (`execAll?_entry`), while a layout bounds its addresses without one.  The check decides as the addresses do
exactly if both are on one side of half the address space (`aborts_exact_iff`), and there are accepted layouts in which
they are not (`entry_check_not_exact`).
-/
namespace Wordcode.Interpreter

/-- A machine that is about to enter a function: its program counter is at a header, and the two stack variables hold
addresses, up to what 32 bits leave of them. -/
structure Machine.AtHeader (m : Machine) (top limit : UInt32) (locals : UInt8) : Prop where
  opcode : m.heap (word (m.vars "pc")).toInt = Opcode.prologue.code
  locals : m.heap (word (m.vars "pc" + 1)).toInt = locals
  top : word (m.vars Bindings.stackTop) = top.toBitVec
  limit : word (m.vars Bindings.stackMax) = limit.toBitVec

/-- The end of a frame, as the entry computes it. -/
def frameEnd (top : UInt32) (locals : UInt8) : BitVec 32 := top.toBitVec + BitVec.ofNat 32 (8 * locals.toNat)

theorem apply?_shiftLeft_three (n : UInt8) :
    Operator.shiftLeft.apply? (n.toNat : Int) 3 = some ((8 * n.toNat : Nat) : Int) := by
  have hn := n.toNat_lt
  refine congrArg some ?_
  show (word (n.toNat : Int) <<< 3).toInt = _
  rw [word_natCast, BitVec.toInt_eq_toNat_of_lt] <;>
    simp only [BitVec.toNat_shiftLeft, BitVec.toNat_ofNat, Nat.shiftLeft_eq] <;> omega

variable {m : Machine} {top limit : UInt32} {locals : UInt8}

theorem eval?_frameEnd (hbyte : (byteBehind 1).eval? m = some (locals.toNat : Int))
    (htop : word (m.vars Bindings.stackTop) = top.toBitVec) :
    (plus stackTop (.op .shiftLeft (byteBehind 1) (.num 3))).eval? m = some (frameEnd top locals).toInt := by
  have hshift : (Expr.op .shiftLeft (byteBehind 1) (.num 3)).eval? m = some ((8 * locals.toNat : Nat) : Int) := by
    rw [← apply?_shiftLeft_three]
    simp [Expr.eval?, hbyte]
  rw [eval?_plus m (x := m.vars Bindings.stackTop) rfl hshift, word_add, htop, word_natCast, frameEnd]

/-- The machine once the entry has set up its own variables. -/
def Machine.prepared (m : Machine) : Machine :=
  (["sp", "inst", "lx", "ly", "lz"].foldl (fun m name => m.set name 0) (m.set "pc" (word (m.vars "pc")).toInt)).set "sp"
    (m.vars Bindings.stackTop)

theorem execAll?_prepared (m : Machine) (more : List Stmt) :
    execAll? m (.assign pc (integer pc) :: .declare ["sp", "inst", "lx", "ly", "lz"] :: .assign sp stackTop :: more) =
      execAll? m.prepared more := by
  have hpc : (integer pc).eval? m = some (word (m.vars "pc")).toInt := eval?_integer m pc
  exact execAll?_cons_of_next m (exec?_assign m hpc "pc") _

/-- **The entry compares the end of the frame with the limit, as numbers with a sign**, and aborts or goes on. -/
theorem execAll?_entry (h : m.AtHeader top limit locals) :
    ∃ m', execAll? m entryStmts =
      some (if limit.toBitVec.toInt < (frameEnd top locals).toInt then .aborted else .next m') := by
  have hopcode : (integer (byteAt pc)).eval? m.prepared = some 255 := by
    rw [eval?_integer, eval?_byteAt _ (x := (word (m.vars "pc")).toInt) rfl, word_toInt]
    show some (word ((m.heap (word (m.vars "pc")).toInt).toNat : Int)).toInt = some 255
    rw [h.opcode]
    rfl
  have hbyte : (byteBehind 1).eval? m.prepared = some (locals.toNat : Int) := by
    rw [byteBehind, eval?_byteAt _ (x := (word (m.vars "pc")).toInt + 1) rfl, word_add, word_toInt, ← word_add]
    show some ((m.heap (word (m.vars "pc" + 1)).toInt).toNat : Int) = _
    rw [h.locals]
  have hheader : (Stmt.abortIf (.op .notEqual (integer (byteAt pc)) (.num Opcode.prologue.code.toNat))).exec?
      m.prepared = some (.next m.prepared) := by
    simp only [Stmt.exec?, Expr.eval?, hopcode]
    rfl
  -- the frame is reserved before the check, so the check reads its end
  let reserved := m.prepared.set Bindings.stackTop (frameEnd top locals).toInt
  have hframe : (Stmt.assign stackTop (plus stackTop (.op .shiftLeft (byteBehind 1) (.num 3)))).exec? m.prepared =
      some (.next reserved) := exec?_assign _ (eval?_frameEnd hbyte h.top) Bindings.stackTop
  have htop : (integer stackTop).eval? reserved = some (frameEnd top locals).toInt := by
    rw [eval?_integer]
    show some (word (frameEnd top locals).toInt).toInt = _
    rw [word_toInt]
  have hlimit : (integer stackMax).eval? reserved = some limit.toBitVec.toInt := by
    rw [eval?_integer]
    show some (word (m.vars Bindings.stackMax)).toInt = _
    rw [h.limit]
  have hcheck : (Expr.op .greater (integer stackTop) (integer stackMax)).eval? reserved =
      some (truth (limit.toBitVec.toInt < (frameEnd top locals).toInt)) := by
    simp only [Expr.eval?, htop, hlimit]
    rfl
  refine ⟨reserved.set "pc" (word (reserved.vars "pc" + 4)).toInt, ?_⟩
  rw [entryStmts, execAll?_prepared, execAll?_cons_of_next _ hheader, execAll?_cons_of_next _ hframe]
  by_cases hlt : limit.toBitVec.toInt < (frameEnd top locals).toInt
  · rw [if_pos hlt, execAll?_cons_of_aborted]
    simp [Stmt.exec?, hcheck, truth, hlt]
  · have hpass : (Stmt.abortIf (.op .greater (integer stackTop) (integer stackMax))).exec? reserved =
        some (.next reserved) := by
      simp [Stmt.exec?, hcheck, truth, hlt]
    have hnext : (plus pc (.num wordSize)).eval? reserved = some (word (reserved.vars "pc" + 4)).toInt :=
      eval?_plus _ rfl rfl
    rw [if_neg hlt, execAll?_cons_of_next _ hpass]
    exact execAll?_cons_of_next _ (exec?_assign _ hnext "pc") []

example : ((entryStmts.map Stmt.text).drop 4).take 2 =
    ["EMTSTACKTOP = EMTSTACKTOP + (HEAPU8[pc + 1 >> 0] << 3) | 0;",
      "if ((EMTSTACKTOP | 0) > (EMT_STACK_MAX | 0)) abort();"] := by
  decide +kernel

/-- **Comparing with a sign agrees with comparing without one** for a limit and a frame's end behind it or not far
beyond it, exactly if they are on one side of half of what 32 bits hold. -/
theorem limit_lt_frameEnd_iff (h : top ≤ limit) :
    (limit.toBitVec.toInt < (frameEnd top locals).toInt ↔ limit.toNat < top.toNat + 8 * locals.toNat) ↔
      (top.toNat + 8 * locals.toNat < UInt32.size / 2 ↔ limit.toNat < UInt32.size / 2) := by
  have hhalf : UInt32.size / 2 = 2147483648 := rfl
  have hn := locals.toNat_lt
  have hl := limit.toNat_lt
  have hle : top.toNat ≤ limit.toNat := h
  have hend : (frameEnd top locals).toNat = (top.toNat + 8 * locals.toNat) % 2 ^ 32 := by
    simp only [frameEnd, BitVec.toNat_add, BitVec.toNat_ofNat, UInt32.toNat_toBitVec]
    omega
  rw [BitVec.toInt_eq_toNat_cond, BitVec.toInt_eq_toNat_cond, hend, UInt32.toNat_toBitVec, hhalf]
  have hbound : top.toNat + 8 * locals.toNat ≤ limit.toNat + 2040 := by omega
  generalize top.toNat + 8 * locals.toNat = stop at *
  split <;> split <;> omega

/-- **An entry aborts exactly if the limit is below the end of the frame, both taken with a sign.** -/
theorem aborts_iff (h : m.AtHeader top limit locals) (r : Registry) (symbols : SymbolTable) (kind : Kind) :
    (routine r symbols kind).Aborts m ↔ limit.toBitVec.toInt < (frameEnd top locals).toInt := by
  obtain ⟨m', hexec⟩ := execAll?_entry h
  show execAll? m entryStmts = some .aborted ↔ _
  rw [hexec]
  by_cases hlt : limit.toBitVec.toInt < (frameEnd top locals).toInt <;> simp [hlt]

/-- An entry that does not abort goes on. -/
theorem enters_iff (h : m.AtHeader top limit locals) (r : Registry) (symbols : SymbolTable) (kind : Kind) :
    (routine r symbols kind).Enters m ↔ ¬ (routine r symbols kind).Aborts m := by
  rw [aborts_iff h]
  obtain ⟨m', hexec⟩ := execAll?_entry h
  show (∃ m', execAll? m entryStmts = some (.next m')) ↔ _
  rw [hexec]
  by_cases hlt : limit.toBitVec.toInt < (frameEnd top locals).toInt <;> simp [hlt]

/-- **When the check for stack overflow is exact.**  In a layout that is accepted, for any top of the stack up to its
limit and any number of locals, an entry aborts or goes on.  It aborts exactly on overflow if and only if the end of the
frame and the limit are on one side of half the address space. -/
theorem aborts_exact_iff {o : Options} {dataLen : UInt32} {codeLen : Nat} {l : Layout}
    (hl : Layout.plan dataLen codeLen o = .ok l) (htop : top ≤ l.stackMax) (hm : m.AtHeader top l.stackMax locals)
    (r : Registry) (symbols : SymbolTable) (kind : Kind) :
    l.stackMax.toNat = l.stackStart.toNat + o.stackCapacity.toNat ∧
    ((routine r symbols kind).Enters m ↔ ¬ (routine r symbols kind).Aborts m) ∧
    (((routine r symbols kind).Aborts m ↔ l.stackMax.toNat < top.toNat + 8 * locals.toNat) ↔
      (top.toNat + 8 * locals.toNat < UInt32.size / 2 ↔ l.stackMax.toNat < UInt32.size / 2)) := by
  refine ⟨(Layout.planned hl).toNat_stackMax, enters_iff hm r symbols kind, ?_⟩
  rw [aborts_iff hm]
  exact limit_lt_frameEnd_iff htop

/-- A machine at a header at address 8, its stack variables as the loader computes them. -/
def Machine.entering (top limit : UInt32) (locals : UInt8) : Machine where
  vars name := if name = "pc" then 8 else if name = Bindings.stackTop then top.toNat else limit.toNat
  heap i := if i = 8 then Opcode.prologue.code else if i = 9 then locals else 0

theorem word_toNat (x : UInt32) : word x.toNat = x.toBitVec := by
  rw [word_natCast, UInt32.toNat, BitVec.ofNat_toNat, BitVec.setWidth_eq]

theorem atHeader_entering (top limit : UInt32) (locals : UInt8) :
    (Machine.entering top limit locals).AtHeader top limit locals where
  opcode := rfl
  locals := rfl
  top := word_toNat top
  limit := word_toNat limit

theorem aborts_exact_iff_fresh_stack :
    ∃ l, Layout.plan 13 20 {} = .ok l ∧ l.stackStart = 48 ∧ (48 : UInt32) ≤ l.stackMax ∧
      (Machine.entering 48 l.stackMax 3).AtHeader 48 l.stackMax 3 ∧ l.stackMax.toNat = 48 + 1048576 ∧
      (routine .empty ⟨[], by decide, by decide⟩ .int).Enters (Machine.entering 48 l.stackMax 3) := by
  have hm := atHeader_entering 48 1048624 3
  have hexact := aborts_exact_iff (show Layout.plan 13 20 {} = .ok ⟨8, 13, 16, 20, 40, 1048576, 1048616⟩ from rfl)
    (by decide) hm .empty ⟨[], by decide, by decide⟩ .int
  refine ⟨_, rfl, rfl, by decide, hm, hexact.1, hexact.2.1.2 fun haborts => ?_⟩
  exact absurd ((hexact.2.2.2 (by decide)).1 haborts) (by decide)

/-- **The check is not exact**: in one layout that is accepted, the first frame aborts although it fits; in another one,
a frame that goes beyond the stack is entered. -/
theorem entry_check_not_exact :
    (∃ l, Layout.plan 0 4 ⟨2147483648, 8⟩ = .ok l ∧ l.stackStart = 16 ∧ l.stackMax = 2147483664 ∧
      (Machine.entering 16 2147483664 1).AtHeader 16 l.stackMax 1 ∧ ¬ l.stackMax.toNat < 16 + 8 * 1 ∧
      (routine .empty ⟨[], by decide, by decide⟩ .void).Aborts (Machine.entering 16 2147483664 1)) ∧
    ∃ l, Layout.plan 0 4 ⟨2147483624, 8⟩ = .ok l ∧ l.stackStart = 16 ∧ l.stackMax = 2147483640 ∧
      (Machine.entering 2147483640 2147483640 1).AtHeader 2147483640 l.stackMax 1 ∧
      l.stackMax.toNat < 2147483640 + 8 * 1 ∧
      ¬ (routine .empty ⟨[], by decide, by decide⟩ .void).Aborts (Machine.entering 2147483640 2147483640 1) := by
  refine ⟨⟨_, rfl, rfl, rfl, atHeader_entering _ _ _, by decide, ?_⟩, _, rfl, rfl, rfl, atHeader_entering _ _ _,
    by decide, ?_⟩
  · rw [aborts_iff (atHeader_entering _ _ _)]
    decide
  · rw [aborts_iff (atHeader_entering _ _ _)]
    decide

end Wordcode.Interpreter
