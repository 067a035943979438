import Wordcode.Proofs.Assembly.Tiling
import Wordcode.Proofs.Interpreter.Dispatch
/-!
# Proofs.Interpreter.Cases — the opcodes that a routine has a case for

The labels of a choice can be read off its lines (`labels`).  A routine has one case for each opcode but the function
header (`labels_opcodeLines`), while a listing has to start with a header and may have more of them.  So an instruction
behind the first one of its function has a case exactly if it is no header (`has_case_iff`), and a header there runs
into what is done for the others (`header_without_case`).
-/
namespace Wordcode.Interpreter

variable {r : Registry} {symbols : SymbolTable} {kind : Kind}

/-- The label of the case that starts on a line. -/
def caseLabel? (l : String) : Option String :=
  (Text.after? "case ".toList l.toList).map fun rest => String.ofList (rest.takeWhile (· != ':'))

/-- **The labels of a choice**, in order. -/
def labels (lines : List String) : List String := lines.filterMap caseLabel?

theorem caseLabel?_caseHead (label : Nat) (behind : String) :
    caseLabel? (caseHead label ++ behind) = some (toString label) := by
  have hline : (caseHead label ++ behind).toList =
      "case ".toList ++ ((toString label).toList ++ ':' :: behind.toList) := by
    show ("case " ++ toString label ++ ":" ++ behind).toList = _
    simp [String.toList_append]
  have hdigits : ∀ c ∈ (toString label).toList, (c != ':') = true := by
    intro c hc
    have hdigit := Text.isDigit_of_mem_toString hc
    rw [bne_iff_ne]
    rintro rfl
    cases hdigit
  have hstop : Text.StopsAt (· != ':') (':' :: behind.toList) := fun c hc => by cases hc; rfl
  rw [caseLabel?, Text.after?_eq_some_iff.2 hline, Option.map_some, Text.takeWhile_append_of_stopsAt hdigits hstop,
    String.ofList_toList]

theorem caseLabel?_of_mem_indent {ls : List String} : ∀ l ∈ indent ls, caseLabel? l = none := by
  intro l hl
  obtain ⟨l', -, rfl⟩ := List.mem_map.1 hl
  rw [caseLabel?, String.toList_append, Option.map_eq_none_iff]
  exact Text.after?_cons_of_ne (by decide) _ _

theorem labels_append (ls ls' : List String) : labels (ls ++ ls') = labels ls ++ labels ls' := List.filterMap_append

/-- A block has no label but its head's. -/
theorem labels_block (head : String) (body : List String) : labels (block head body) = labels [head ++ " \x7b"] := by
  have hbody : labels (indent body) = [] := List.filterMap_eq_nil_iff.2 caseLabel?_of_mem_indent
  have hclose : labels ["\x7d"] = [] := by decide
  rw [block, labels_append, hclose, List.append_nil, ← List.singleton_append, labels_append, hbody, List.append_nil]

namespace Case

def code : Case → UInt8
  | inline code _ => code
  | calls code _ => code

theorem labels_lines (c : Case) : labels c.lines = [toString c.code.toNat] := by
  cases c with
  | inline code body =>
    have hne : (body ++ [Stmt.leave]).map Stmt.text ≠ [] := by simp
    have hline : labels (inline code body).lines =
        labels [caseHead code.toNat ++ (" " ++ " ".intercalate ((body ++ [Stmt.leave]).map Stmt.text))] := by
      rw [lines, String.intercalate_cons_of_ne_nil hne, String.append_assoc]
    rw [hline, labels, List.filterMap_cons_some (caseLabel?_caseHead _ _)]
    rfl
  | calls code targets =>
    rw [lines, labels_block, labels, List.filterMap_cons_some (caseLabel?_caseHead _ _)]
    rfl

end Case

theorem code_of_case? {o : Opcode} {c : Case} (h : case? r symbols kind o = some c) : c.code = o.code := by
  unfold case? at h
  split at h
  · cases h
    rfl
  · obtain ⟨body, -, rfl⟩ := Option.map_eq_some_iff.1 h
    rfl

theorem case?_eq_none_iff {o : Opcode} : case? r symbols kind o = none ↔ o = .prologue := by
  cases o <;> simp [case?, action?]

theorem labels_cases : ∀ os : List Opcode,
    labels ((os.filterMap (case? r symbols kind)).flatMap Case.lines) =
      (os.filter (· ≠ .prologue)).map fun o => toString o.code.toNat
  | [] => rfl
  | o :: os => by
    by_cases ho : o = .prologue
    · rw [List.filterMap_cons_none (case?_eq_none_iff.2 ho), List.filter_cons_of_neg (by simpa using ho)]
      exact labels_cases os
    · have hsome : case? r symbols kind o ≠ none := fun hnone => ho (case?_eq_none_iff.1 hnone)
      obtain ⟨c, hc⟩ := Option.ne_none_iff_exists'.1 hsome
      rw [List.filterMap_cons_some hc, List.flatMap_cons, labels_append, c.labels_lines, code_of_case? hc,
        labels_cases os, List.filter_cons_of_pos (by simpa using ho)]
      rfl

/-- **A routine has one case for each opcode but the header.** -/
theorem labels_opcodeLines (r : Registry) (symbols : SymbolTable) (kind : Kind) :
    labels (opcodeLines r symbols kind) =
      (Opcode.all.filter (· ≠ .prologue)).map fun o => toString o.code.toNat := by
  have habort : labels ["default: " ++ Stmt.abort.text] = [] := by decide
  have hcases : (routine r symbols kind).cases = Opcode.all.filterMap (case? r symbols kind) := rfl
  rw [opcodeLines, labels_append, habort, List.append_nil, hcases, labels_cases]

theorem toString_code_mem_labels_iff {o : Opcode} :
    toString o.code.toNat ∈ labels (opcodeLines r symbols kind) ↔ o ≠ .prologue := by
  rw [labels_opcodeLines]
  cases o <;> decide

theorem nodup_labels_opcodeLines : (labels (opcodeLines r symbols kind)).Nodup := by
  rw [labels_opcodeLines]
  decide

/-- **Which instructions a routine has a case for.**  A listing that reads starts with a header, and so does the
function it makes.  In a program, an instruction behind the first one of its function has a case in a routine, whatever
the routine's kind, exactly if it is no header; without a case it is met by the default, which aborts. -/
theorem has_case_iff {a : Assembler} (ha : a.Reached symbols) (kind : Kind) :
    (∀ text is, Listing.parse text = .ok is → ∀ i ∈ is.head?, i.opcode = .prologue) ∧
    ((∀ name ∈ symbols.names, Text.OneLine name) →
      Text.lines (routine a.program.registry symbols kind).text = (routine a.program.registry symbols kind).lines) ∧
    ∃ cases, bodies (opcodePath kind) (routine a.program.registry symbols kind).lines = [cases] ∧
      cases.getLast? = some "default: abort();" ∧ (labels cases).Nodup ∧
      ∀ f ∈ a.program.functions, (∀ i ∈ f.instructions.head?, i.opcode = .prologue) ∧
        ∀ i ∈ f.instructions.tail, toString i.opcode.code.toNat ∈ labels cases ↔ i.opcode ≠ .prologue := by
  refine ⟨fun text is hp i hi => ?_, fun hn => Text.lines_unlines (List.cons_ne_nil _ _) (oneLine_lines hn kind), _,
    bodies_opcodePath _ symbols kind, List.getLast?_concat, nodup_labels_opcodeLines, fun f hf => ⟨fun i hi => ?_,
    fun i _ => toString_code_mem_labels_iff⟩⟩
  · obtain ⟨n, y, z, rfl⟩ := (Listing.spelling_of_parse hp).2 i hi
    rfl
  · rcases (ha.sound.faithful f hf).headed with ⟨hnil, -, -⟩ | ⟨n, y, z, rest, hcons, -⟩
    · rw [hnil] at hi
      cases hi
    · rw [hcons] at hi
      cases hi
      rfl

theorem has_case_iff_header_behind_return :
    ∃ a, Assembler.addAll ⟨["_f"], by decide, by decide⟩ .empty
        [("_f", "[\"FUNC\", 1, 0, 0, \"RET\", 0, 0, 0, \"FUNC\", 2, 0, 0]")] = .ok a ∧
      ∃ cases, bodies (opcodePath .int) (routine a.program.registry ⟨["_f"], by decide, by decide⟩ .int).lines =
          [cases] ∧ cases.getLast? = some "default: abort();" ∧ "254" ∈ labels cases ∧ "255" ∉ labels cases := by
  refine exists_ok_of_map_eq_ok (f := fun a => a.program.functions.map AssembledFunction.instructions)
    (b := [[.op .prologue 1 0 0, .op .ret 0 0 0, .op .prologue 2 0 0]]) ?_ fun a ha hfunctions => ?_
  · decide +kernel
  · obtain ⟨f, hf, hinstructions⟩ := List.mem_map.1 (hfunctions ▸ List.mem_singleton_self _)
    obtain ⟨-, -, cases, hcases, hlast, -, hfunction⟩ := has_case_iff (Assembler.Reached.empty.addAll ha) .int
    have hcase := (hfunction f hf).2
    rw [hinstructions] at hcase
    exact ⟨cases, hcases, hlast, (hcase (.op .ret 0 0 0) (by simp)).2 (by decide),
      fun hlabel => (hcase (.op .prologue 2 0 0) (by simp)).1 hlabel rfl⟩

/-- **A header behind the first instruction is read and assembled, and no routine has a case for it.** -/
theorem header_without_case :
    Listing.parse "[\"FUNC\", 1, 0, 0, \"FUNC\", 2, 0, 0]" = .ok [.op .prologue 1 0 0, .op .prologue 2 0 0] ∧
      ∃ a, Assembler.addAll ⟨["_f"], by decide, by decide⟩ .empty
          [("_f", "[\"FUNC\", 1, 0, 0, \"FUNC\", 2, 0, 0]")] = .ok a ∧
        a.program.functions.map AssembledFunction.instructions = [[.op .prologue 1 0 0, .op .prologue 2 0 0]] ∧
        ∀ kind, ∃ cases, bodies (opcodePath kind)
            (routine a.program.registry ⟨["_f"], by decide, by decide⟩ kind).lines = [cases] ∧
          cases.getLast? = some "default: abort();" ∧ toString Opcode.prologue.code.toNat ∉ labels cases := by
  refine ⟨by decide +kernel, exists_ok_of_map_eq_ok
    (f := fun a => a.program.functions.map AssembledFunction.instructions)
    (b := [[.op .prologue 1 0 0, .op .prologue 2 0 0]]) (by decide +kernel) fun a _ hfunctions =>
    ⟨hfunctions, fun kind => ⟨_, bodies_opcodePath _ _ kind, List.getLast?_concat, fun hlabel => ?_⟩⟩⟩
  exact toString_code_mem_labels_iff.1 hlabel rfl

end Wordcode.Interpreter
