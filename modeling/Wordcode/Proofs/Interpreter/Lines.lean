import Wordcode.Interpreter.Routine
import Wordcode.Proofs.Host.Items
/-!
# Proofs.Interpreter.Lines — a routine is one function block, whatever it calls

Printing ends no line unless a name does (`oneLine_text`), and all lines of a routine but the first and the last are set
in.  So a routine whose callees have no line ends in their names is written on lines that read back as one function
block with the routine's name (`reads_toBlock`, `oneLine_lines`).
-/
namespace Wordcode.Interpreter

open Text

namespace Expr

/-- No name in the expression ends a line. -/
def Plain : Expr → Prop
  | var name => OneLine name
  | num _ => True
  | doubleZero => True
  | load _ index => index.Plain
  | op _ a b => a.Plain ∧ b.Plain
  | asInt e => e.Plain
  | asUnsigned e => e.Plain
  | asDouble e => e.Plain

instance decidablePlain : (e : Expr) → Decidable e.Plain
  | var name => inferInstanceAs (Decidable (OneLine name))
  | num _ => isTrue trivial
  | doubleZero => isTrue trivial
  | load _ index => decidablePlain index
  | op _ a b => @instDecidableAnd _ _ (decidablePlain a) (decidablePlain b)
  | asInt e => decidablePlain e
  | asUnsigned e => decidablePlain e
  | asDouble e => decidablePlain e

theorem oneLine_operand (outer : Nat) (e : Expr) {text : String} (h : OneLine text) :
    OneLine (operand outer e text) := by
  unfold operand
  split
  · exact h
  · exact ((show OneLine "(" by decide).append h).append (by decide)

/-- **An expression is printed on one line.** -/
theorem oneLine_text {e : Expr} (h : e.Plain) : OneLine e.text := by
  induction e with
  | var name => exact h
  | num n => exact oneLine_toString_nat n
  | doubleZero => decide
  | load view index ih =>
    have hview : OneLine view.name := by cases view <;> decide
    exact ((hview.append (by decide)).append (ih h)).append (by decide)
  | op o a b iha ihb =>
    have hsymbol : OneLine o.symbol := by cases o <;> decide
    have hleft := ((oneLine_operand o.rank a (iha h.1)).append (show OneLine " " by decide)).append hsymbol
    exact (hleft.append (by decide)).append (oneLine_operand o.rank b (ihb h.2))
  | asInt e ih => exact (oneLine_operand _ e (ih h)).append (by decide)
  | asUnsigned e ih => exact (oneLine_operand _ e (ih h)).append (by decide)
  | asDouble e ih => exact (show OneLine "+" by decide).append (oneLine_operand _ e (ih h))

end Expr

/-- No name in the call ends a line. -/
def CallStmt.Plain (c : CallStmt) : Prop := OneLine c.callee ∧ ∀ e ∈ c.args, e.Plain

instance (c : CallStmt) : Decidable c.Plain :=
  inferInstanceAs (Decidable (OneLine c.callee ∧ ∀ e ∈ c.args, e.Plain))

theorem CallStmt.oneLine_text {c : CallStmt} (h : c.Plain) : OneLine c.text := by
  have hargs : OneLine (", ".intercalate (c.args.map Expr.text)) := by
    refine OneLine.intercalate (by decide) fun p hp => ?_
    obtain ⟨e, he, rfl⟩ := List.mem_map.1 hp
    exact Expr.oneLine_text (h.2 e he)
  have hcall := ((h.1.append (show OneLine "(" by decide)).append hargs).append (show OneLine ")" by decide)
  unfold CallStmt.text
  split
  · exact hcall.append (by decide)
  · exact hcall.append (by decide)
  · exact ((show OneLine "+" by decide).append hcall).append (by decide)
  · exact ((show OneLine "+" by decide).append hcall).append (by decide)

namespace Stmt

/-- No name in the statement ends a line. -/
def Plain : Stmt → Prop
  | declare names => ∀ name ∈ names, OneLine name
  | assign place value => place.Plain ∧ value.Plain
  | abort => True
  | abortIf condition => condition.Plain
  | jumpIf condition pc target => condition.Plain ∧ pc.Plain ∧ target.Plain
  | call c => c.Plain
  | leave => True
  | again => True
  | ret => True
  | retValue e => e.Plain

instance decidablePlain : (s : Stmt) → Decidable s.Plain
  | declare names => inferInstanceAs (Decidable (∀ name ∈ names, OneLine name))
  | assign place value => inferInstanceAs (Decidable (place.Plain ∧ value.Plain))
  | abort => isTrue trivial
  | abortIf condition => inferInstanceAs (Decidable condition.Plain)
  | jumpIf condition pc target => inferInstanceAs (Decidable (condition.Plain ∧ pc.Plain ∧ target.Plain))
  | call c => inferInstanceAs (Decidable c.Plain)
  | leave => isTrue trivial
  | again => isTrue trivial
  | ret => isTrue trivial
  | retValue e => inferInstanceAs (Decidable e.Plain)

/-- **A statement is printed on one line.** -/
theorem oneLine_text {s : Stmt} (h : s.Plain) : OneLine s.text := by
  cases s with
  | declare names =>
    have hnames : OneLine (", ".intercalate (names.map fun name => name ++ " = 0")) := by
      refine OneLine.intercalate (by decide) fun p hp => ?_
      obtain ⟨name, hname, rfl⟩ := List.mem_map.1 hp
      exact (h name hname).append (by decide)
    exact ((show OneLine "var " by decide).append hnames).append (by decide)
  | assign place value =>
    exact (((Expr.oneLine_text h.1).append (by decide)).append (Expr.oneLine_text h.2)).append (by decide)
  | abort => decide
  | abortIf condition => exact ((show OneLine "if (" by decide).append (Expr.oneLine_text h)).append (by decide)
  | jumpIf condition pc target =>
    have hif := ((show OneLine "if (" by decide).append (Expr.oneLine_text h.1)).append
      (show OneLine ") \x7b " by decide)
    have hjump := ((hif.append (Expr.oneLine_text h.2.1)).append (show OneLine " = " by decide)).append
      (Expr.oneLine_text h.2.2)
    exact hjump.append (by decide)
  | call c => exact CallStmt.oneLine_text h
  | leave => decide
  | again => decide
  | ret => decide
  | retValue e => exact ((show OneLine "return " by decide).append (Expr.oneLine_text h)).append (by decide)

end Stmt

theorem oneLine_map_text {ss : List Stmt} (h : ∀ s ∈ ss, s.Plain) : ∀ l ∈ ss.map Stmt.text, OneLine l := by
  intro l hl
  obtain ⟨s, hs, rfl⟩ := List.mem_map.1 hl
  exact Stmt.oneLine_text (h s hs)

/-! ## Blocks -/

theorem oneLine_block {head : String} {body : List String} (hh : OneLine head) (hb : ∀ l ∈ body, OneLine l) :
    ∀ l ∈ block head body, OneLine l := by
  intro l hl
  rcases List.mem_append.1 hl with hl | hl
  · rcases List.mem_cons.1 hl with rfl | hl
    · exact hh.append (by decide)
    · obtain ⟨l', hl', rfl⟩ := List.mem_map.1 hl
      exact (show OneLine " " by decide).append (hb l' hl')
  · rw [List.mem_singleton.1 hl]
    decide

theorem oneLine_choice {subject : Expr} {cases : List String} (hs : subject.Plain) (hc : ∀ l ∈ cases, OneLine l) :
    ∀ l ∈ choice subject cases, OneLine l := by
  refine oneLine_block (((show OneLine "switch (" by decide).append (Expr.oneLine_text hs)).append (by decide)) ?_
  intro l hl
  rcases List.mem_append.1 hl with hl | hl
  · exact hc l hl
  · rw [List.mem_singleton.1 hl]
    decide

theorem oneLine_caseHead (label : Nat) : OneLine (caseHead label) := by
  have hcase := ((show OneLine "case " by decide).append (oneLine_toString_nat label)).append
    (show OneLine ":" by decide)
  exact hcase

/-- **A line that is set in stays in its block.** -/
theorem isBody_of_mem_indent {ls : List String} : ∀ l ∈ indent ls, IsBody l := by
  intro l hl
  obtain ⟨l', -, rfl⟩ := List.mem_map.1 hl
  have hblank : (" " ++ l').toList = ' ' :: l'.toList := String.toList_append
  refine ⟨headerName?_of_ne hblank (by decide), ?_⟩
  rw [hblank]
  exact after?_cons_of_ne (by decide) _ _

/-! ## Cases -/

/-- No name in the case ends a line. -/
def Case.Plain : Case → Prop
  | inline _ body => ∀ s ∈ body, s.Plain
  | calls _ targets => ∀ t ∈ targets, ∀ s ∈ t.signatures, s.call.Plain

theorem SignatureCase.oneLine_lines {c : SignatureCase} (h : c.call.Plain) : ∀ l ∈ c.lines, OneLine l := by
  refine oneLine_block (oneLine_caseHead _) (oneLine_map_text fun s hs => ?_)
  simp only [SignatureCase.stmts, List.mem_cons, List.not_mem_nil, or_false] at hs
  rcases hs with rfl | rfl | rfl
  · exact h
  · exact ⟨by decide, ⟨by decide, trivial⟩, trivial⟩
  · exact trivial

theorem TargetCase.oneLine_lines {c : TargetCase} (h : ∀ s ∈ c.signatures, s.call.Plain) :
    ∀ l ∈ c.lines, OneLine l := by
  refine oneLine_block (oneLine_caseHead _) fun l hl => ?_
  rcases List.mem_append.1 hl with hl | hl
  · refine oneLine_choice (by decide) (fun l hl => ?_) l hl
    obtain ⟨s, hs, hl⟩ := List.mem_flatMap.1 hl
    exact SignatureCase.oneLine_lines (h s hs) l hl
  · rw [List.mem_singleton.1 hl]
    decide

theorem Case.oneLine_lines {c : Case} (h : c.Plain) : ∀ l ∈ c.lines, OneLine l := by
  cases c with
  | inline code body =>
    intro l hl
    rw [List.mem_singleton.1 hl]
    refine OneLine.intercalate (by decide) fun p hp => ?_
    rcases List.mem_cons.1 hp with rfl | hp
    · exact oneLine_caseHead _
    · refine oneLine_map_text (fun s hs => ?_) p hp
      rcases List.mem_append.1 hs with hs | hs
      · exact h s hs
      · rw [List.mem_singleton.1 hs]
        exact trivial
  | calls code targets =>
    refine oneLine_block (oneLine_caseHead _) fun l hl => ?_
    rcases List.mem_append.1 hl with hl | hl
    · refine oneLine_choice (by decide) (fun l hl => ?_) l hl
      obtain ⟨t, ht, hl⟩ := List.mem_flatMap.1 hl
      exact TargetCase.oneLine_lines (h t ht) l hl
    · rw [List.mem_singleton.1 hl]
      decide

theorem plain_argument (index : Nat) (k : ValueKind) : (argument index k).Plain := by
  have hbyte : (byteBehind (3 + index)).Plain := ⟨⟨by decide, trivial⟩, trivial⟩
  cases k with
  | int => exact ⟨⟨by decide, hbyte, trivial⟩, trivial⟩
  | float => exact ⟨⟨by decide, hbyte, trivial⟩, trivial⟩
  | double => exact ⟨⟨by decide, hbyte, trivial⟩, trivial⟩

theorem plain_callOf {name : String} (h : OneLine name) (s : Signature) : (callOf name s).Plain := by
  refine ⟨h, fun e he => ?_⟩
  obtain ⟨i, -, rfl⟩ := List.mem_mapIdx.1 he
  exact plain_argument _ _

theorem plain_of_action? {kind : Kind} {o : Opcode} {body : List Stmt} (h : action? kind o = some body) :
    ∀ s ∈ body, s.Plain := by
  cases o <;> cases kind <;> cases h <;> decide

variable {r : Registry} {symbols : SymbolTable}

/-- **The cases of a routine** name no callee but by the table. -/
theorem plain_of_case? (hn : ∀ name ∈ symbols.names, OneLine name) {kind : Kind} {o : Opcode} {c : Case}
    (h : case? r symbols kind o = some c) : c.Plain := by
  unfold case? at h
  split at h
  · cases h
    intro t ht s hs
    obtain ⟨⟨target, signatures⟩, -, htarget⟩ := List.mem_filterMap.1 ht
    obtain ⟨name, hname, rfl⟩ := Option.map_eq_some_iff.1 htarget
    obtain ⟨i, -, rfl⟩ := List.mem_mapIdx.1 hs
    exact plain_callOf (hn name (List.mem_of_getElem? hname)) _
  · obtain ⟨body, hbody, rfl⟩ := Option.map_eq_some_iff.1 h
    exact plain_of_action? hbody

/-! ## Routines -/

theorem plain_exitStmts (kind : Kind) : ∀ s ∈ exitStmts kind, s.Plain := by cases kind <;> decide

/-- **No line of a routine ends early**, if no callee's name does. -/
theorem oneLine_lines (hn : ∀ name ∈ symbols.names, OneLine name) (kind : Kind) :
    ∀ l ∈ (routine r symbols kind).lines, OneLine l := by
  have hkind : OneLine ("function " ++ kind.name ++ "(pc)") := by cases kind <;> decide
  have hcases : ∀ l ∈ (routine r symbols kind).cases.flatMap Case.lines, OneLine l := by
    intro l hl
    obtain ⟨c, hc, hl⟩ := List.mem_flatMap.1 hl
    obtain ⟨o, -, ho⟩ := List.mem_filterMap.1 hc
    exact Case.oneLine_lines (plain_of_case? hn ho) l hl
  have hloop : ∀ l ∈ (routine r symbols kind).loopLines, OneLine l := by
    refine oneLine_block (by decide) fun l hl => ?_
    rcases List.mem_append.1 hl with hl | hl
    · rcases List.mem_append.1 hl with hl | hl
      · exact oneLine_map_text (show ∀ s ∈ fetchStmts, s.Plain by decide) l hl
      · exact oneLine_choice (by decide) hcases l hl
    · rw [List.mem_singleton.1 hl]
      exact Stmt.oneLine_text (show (Stmt.assign pc (plus pc (.num wordSize))).Plain by decide)
  refine oneLine_block hkind fun l hl => ?_
  rcases List.mem_append.1 hl with hl | hl
  · rcases List.mem_append.1 hl with hl | hl
    · exact oneLine_map_text (show ∀ s ∈ entryStmts, s.Plain by decide) l hl
    · exact hloop l hl
  · exact oneLine_map_text (plain_exitStmts kind) l hl

namespace Routine

/-- A routine as a function block. -/
def toBlock (r : Routine) : FunctionBlock where
  name := r.kind.name
  header := "function " ++ r.kind.name ++ "(pc)" ++ " \x7b"
  body := indent (r.entry.map Stmt.text ++ r.loopLines ++ r.exit.map Stmt.text)
  listing := none

/-- **A routine's lines read back as one function block.** -/
theorem reads_toBlock (r : Routine) : (HostItem.function r.toBlock).Reads r.lines := by
  have hheader : HostModule.headerName? r.toBlock.header = some r.toBlock.name := by
    show HostModule.headerName? ("function " ++ r.kind.name ++ "(pc)" ++ " \x7b") = some r.kind.name
    cases r.kind <;> decide
  have hclosing : ("\x7d" : String).toList = '\x7d' :: [] := rfl
  exact .function hheader (fun line h => isBody_of_mem_indent line h) hclosing rfl

end Routine
end Wordcode.Interpreter
