import Mathlib.Data.List.Nodup
import Wordcode.Interpreter.Routine
/-!
# Proofs.Interpreter.Blocks — the blocks of a text, read off its lines

A block is a line that ends in an opening brace, with the lines after it that are set in further (`blocks`); going down
by heads leads to the bodies of the blocks in it (`bodies`).  Reading finds a printed block with its body as it was
before it was set in (`blocks_block_append`), whatever the body is, and takes no statement for a block
(`blockHead?_text`).
-/
namespace Wordcode.Interpreter

/-- The line belongs to the block that is open. -/
def isSetIn (l : String) : Bool := l.toList.head? == some ' '

/-- A line one step further out. -/
def setOut (l : String) : String := String.ofList l.toList.tail

/-- The head of the block that a line opens. -/
def blockHead? (l : String) : Option String :=
  if isSetIn l then none else (List.isSuffixOf? " \x7b".toList l.toList).map String.ofList

/-- **The outermost blocks** of lines, each with its head and its body. -/
def blocks : List String → List (String × List String)
  | [] => []
  | l :: ls =>
    match blockHead? l with
    | some head => (head, (ls.takeWhile isSetIn).map setOut) :: blocks ls
    | none => blocks ls

/-- **The bodies that a path of heads leads to.** -/
def bodies : List String → List String → List (List String)
  | [], ls => [ls]
  | head :: path, ls => ((blocks ls).filter fun b => b.1 == head).flatMap fun b => bodies path b.2

theorem bodies_append (path more : List String) :
    ∀ ls : List String, bodies (path ++ more) ls = (bodies path ls).flatMap (bodies more) := by
  induction path with
  | nil => exact fun ls => (List.flatMap_singleton _ _).symm
  | cons head path ih =>
    intro ls
    rw [List.cons_append, bodies, bodies, List.flatMap_assoc]
    exact congrArg (List.flatMap · _) (funext fun b : String × List String => ih b.2)

theorem isSetIn_indented (l : String) : isSetIn (" " ++ l) = true := by simp [isSetIn]

theorem isSetIn_append_eq_false {start : String} (h : start.toList.head?.any (· != ' ') = true) (behind : String) :
    isSetIn (start ++ behind) = false := by
  rw [isSetIn, String.toList_append, List.head?_append]
  cases hstart : start.toList.head? with
  | none => rw [hstart] at h; cases h
  | some c =>
    rw [hstart] at h
    exact beq_eq_false_iff_ne.2 fun heq => bne_iff_ne.1 h (Option.some.inj heq)

theorem setOut_indented (l : String) : setOut (" " ++ l) = l := by simp [setOut]

theorem blockHead?_head {head : String} (h : isSetIn (head ++ " \x7b") = false) :
    blockHead? (head ++ " \x7b") = some head := by
  have hsuffix : List.isSuffixOf? " \x7b".toList (head ++ " \x7b").toList = some head.toList :=
    List.isSuffixOf?_eq_some_iff_append_eq.2 String.toList_append.symm
  rw [blockHead?, h, hsuffix, Option.map_some, String.ofList_toList]
  rfl

/-- A line that ends in anything but a brace opens no block. -/
theorem blockHead?_append_eq_none (before : String) {stop : String}
    (h : stop.toList.getLast?.any (· != '\x7b') = true) : blockHead? (before ++ stop) = none := by
  unfold blockHead?
  split
  · rfl
  · rw [Option.map_eq_none_iff, Option.eq_none_iff_forall_ne_some]
    intro front hfront
    have hlast := congrArg List.getLast? (List.isSuffixOf?_eq_some_iff_append_eq.1 hfront)
    rw [String.toList_append, List.getLast?_append, List.getLast?_append] at hlast
    cases hstop : stop.toList.getLast? with
    | none => rw [hstop] at h; cases h
    | some c =>
      rw [hstop] at h hlast
      cases hlast
      exact absurd h (by decide)

theorem blocks_cons_of_none {l : String} (h : blockHead? l = none) (ls : List String) :
    blocks (l :: ls) = blocks ls := by
  rw [blocks, h]

theorem blocks_append_of_none {ls : List String} (h : ∀ l ∈ ls, blockHead? l = none) (rest : List String) :
    blocks (ls ++ rest) = blocks rest := by
  induction ls with
  | nil => rfl
  | cons l ls ih =>
    rw [List.cons_append, blocks_cons_of_none (h l List.mem_cons_self)]
    exact ih fun l' hl' => h l' (List.mem_cons_of_mem l hl')

theorem blockHead?_of_mem_indent {ls : List String} : ∀ l ∈ indent ls, blockHead? l = none := by
  intro l hl
  obtain ⟨l', -, rfl⟩ := List.mem_map.1 hl
  rw [blockHead?, isSetIn_indented]
  rfl

theorem takeWhile_indent_append (ls : List String) {rest : List String} {l : String} (h : isSetIn l = false) :
    (indent ls ++ l :: rest).takeWhile isSetIn = indent ls := by
  have hin : ∀ l ∈ indent ls, isSetIn l = true := by
    intro l hl
    obtain ⟨l', -, rfl⟩ := List.mem_map.1 hl
    exact isSetIn_indented l'
  rw [List.takeWhile_append_of_pos hin, List.takeWhile_cons_of_neg (by rw [h]; decide), List.append_nil]

theorem map_setOut_indent (ls : List String) : (indent ls).map setOut = ls := by
  rw [indent, List.map_map]
  exact (List.map_congr_left fun l _ => setOut_indented l).trans (List.map_id _)

/-- **A block is read back**, and reading goes on behind it. -/
theorem blocks_block_append {head : String} (h : isSetIn (head ++ " \x7b") = false) (body rest : List String) :
    blocks (block head body ++ rest) = (head, body) :: blocks rest := by
  have hstop : isSetIn "\x7d" = false := by decide
  have hclose : blockHead? "\x7d" = none := by decide
  rw [block, List.cons_append, List.cons_append, List.append_assoc, List.singleton_append, blocks, blockHead?_head h]
  simp only
  rw [takeWhile_indent_append body hstop, map_setOut_indent, blocks_append_of_none blockHead?_of_mem_indent,
    blocks_cons_of_none hclose]

theorem blocks_flatMap_append {α : Type} (head : α → String) (body : α → List String)
    (h : ∀ a, isSetIn (head a ++ " \x7b") = false) (as : List α) (rest : List String) :
    blocks ((as.flatMap fun a => block (head a) (body a)) ++ rest) =
      as.map (fun a => (head a, body a)) ++ blocks rest := by
  induction as with
  | nil => rfl
  | cons a as ih =>
    rw [List.flatMap_cons, List.append_assoc, blocks_block_append (h a), ih]
    rfl

/-- **Among blocks of different heads, a head leads to one body.** -/
theorem bodies_cons_of_mem {ls body : List String} {head : String} (hn : ((blocks ls).map Prod.fst).Nodup)
    (hb : (head, body) ∈ blocks ls) (path : List String) : bodies (head :: path) ls = bodies path body := by
  -- over the blocks: behind the one that is asked for, no head is the same, nor before it
  have hone : (blocks ls).filter (fun b => b.1 == head) = [(head, body)] := by
    generalize blocks ls = bs at hn hb
    induction bs with
    | nil => cases hb
    | cons b bs ih =>
      obtain ⟨hout, hn⟩ := List.nodup_cons.1 hn
      rcases List.mem_cons.1 hb with rfl | hb
      · rw [List.filter_cons, if_pos (beq_self_eq_true head), List.filter_eq_nil_iff.2]
        rintro ⟨head', body'⟩ hb' heq
        obtain rfl : head' = head := beq_iff_eq.1 heq
        exact hout (List.mem_map.2 ⟨_, hb', rfl⟩)
      · have hne : ¬ (b.1 == head) = true := by
          intro heq
          rw [beq_iff_eq.1 heq] at hout
          exact hout (List.mem_map_of_mem hb)
        rw [List.filter_cons, if_neg hne]
        exact ih hn hb
  rw [bodies, hone, List.flatMap_singleton]

theorem bodies_cons_of_eq {ls body : List String} {head : String} (h : blocks ls = [(head, body)])
    (path : List String) : bodies (head :: path) ls = bodies path body :=
  bodies_cons_of_mem (h ▸ List.nodup_singleton head) (h ▸ List.mem_singleton_self _) path

/-- **No statement opens a block.** -/
theorem blockHead?_text (s : Stmt) : blockHead? s.text = none := by
  cases s with
  | declare names => exact blockHead?_append_eq_none _ (by decide)
  | assign place value => exact blockHead?_append_eq_none _ (by decide)
  | abort => decide
  | abortIf condition => exact blockHead?_append_eq_none _ (by decide)
  | jumpIf condition pc target => exact blockHead?_append_eq_none _ (by decide)
  | call c =>
    show blockHead? c.text = none
    unfold CallStmt.text
    split <;> exact blockHead?_append_eq_none _ (by decide)
  | leave => decide
  | again => decide
  | ret => decide
  | retValue e => exact blockHead?_append_eq_none _ (by decide)

theorem blockHead?_of_mem_map_text {ss : List Stmt} : ∀ l ∈ ss.map Stmt.text, blockHead? l = none := by
  intro l hl
  obtain ⟨s, -, rfl⟩ := List.mem_map.1 hl
  exact blockHead?_text s

/-- **The one-line case of an opcode opens no block**: it ends in a statement. -/
theorem blocks_inline_append (code : UInt8) (body : List Stmt) (rest : List String) :
    blocks ((Case.inline code body).lines ++ rest) = blocks rest := by
  refine blocks_append_of_none (fun l hl => ?_) rest
  have hline : (caseHead code.toNat :: (body ++ [Stmt.leave]).map Stmt.text) =
      (caseHead code.toNat :: body.map Stmt.text) ++ [Stmt.leave.text] := by
    rw [List.map_append]
    rfl
  rw [List.mem_singleton.1 hl, hline,
    String.intercalate_append_of_ne_nil (List.cons_ne_nil _ _) (List.cons_ne_nil _ _), String.intercalate_singleton]
  exact blockHead?_append_eq_none _ (by decide)

end Wordcode.Interpreter
