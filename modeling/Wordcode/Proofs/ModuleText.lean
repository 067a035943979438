import Wordcode.Proofs.Host.Filled
import Wordcode.Proofs.Host.Names
import Wordcode.Proofs.Interpreter.Lines
import Wordcode.Proofs.Transform
/-!
# Proofs.ModuleText — the new text is a module again, with the same content

Every line of a transformed module is of the kind that its item says: lines carried over stay what they were, filled
lines of bodies stay in their bodies, and each routine is one more block.  So the new text reads back as the items of
the old one without their listings, the two declarations behind the last one of them, and the routines
(`parse_moduleText`).
-/
namespace Wordcode

variable {o : Options} (address? : String → Option UInt32)

namespace HostItem

/-- An item as a transform leaves it: a body with its placeholders filled, and no listing. -/
def rewritten : HostItem → HostItem
  | function f => function { f with body := f.body.map (Placeholder.fillLine address?), listing := none }
  | item => item

theorem lines_fillItem (item : HostItem) :
    (Trampoline.fillItem address? item).lines = (item.rewritten address?).lines := by
  cases item <;> rfl

theorem isDeclaration_fillItem (item : HostItem) :
    (Trampoline.fillItem address? item).isDeclaration = item.isDeclaration := by
  cases item <;> rfl

theorem imports_rewritten (item : HostItem) : (item.rewritten address?).imports = item.imports := by
  cases item <;> rfl

/-- **An item that was read reads back once it is rewritten.** -/
theorem Reads.rewritten {item : HostItem} {part : List String} (h : item.Reads part) :
    (item.rewritten address?).Reads (item.rewritten address?).lines := by
  cases h with
  | text hh hi => exact .text hh hi
  | declaration hh hi => exact .declaration hh hi
  | @function f closing rest hh hb hc hl =>
    have hclosing : ("\x7d" : String).toList = '\x7d' :: [] := rfl
    refine .function hh (fun line hline => ?_) hclosing rfl
    obtain ⟨line', hline', rfl⟩ := List.mem_map.1 hline
    exact isBody_fillLine address? (hb line' hline')

theorem Reads.oneLine_rewritten {item : HostItem} {part : List String} (h : item.Reads part)
    (hl : ∀ l ∈ part, Text.OneLine l) : ∀ l ∈ (item.rewritten address?).lines, Text.OneLine l := by
  have hlines := HostModule.oneLine_lines_of_reads h hl
  cases item with
  | text line => exact hlines
  | declaration line imports => exact hlines
  | function f =>
    intro l hmem
    rcases List.mem_append.1 hmem with hmem | hmem
    · rcases List.mem_cons.1 hmem with rfl | hmem
      · exact hlines f.header (by simp [lines, FunctionBlock.lines])
      · obtain ⟨line, hline, rfl⟩ := List.mem_map.1 hmem
        exact Placeholder.oneLine_fillLine address? (hlines line (by simp [lines, FunctionBlock.lines, hline]))
    · rw [List.mem_singleton.1 hmem]
      decide

end HostItem

namespace HostModule

theorem isDeclaration_of_mem_undeclaring (m : HostModule) : ∀ item ∈ m.undeclaring, item.isDeclaration = false := by
  intro item hi
  have hall := List.all_eq_true.1 (List.all_takeWhile (p := fun item : HostItem => !item.isDeclaration))
    item (List.mem_reverse.1 hi)
  simpa using hall

theorem isDeclaration_getLast?_declaring (m : HostModule) :
    ∀ item ∈ m.declaring.getLast?, item.isDeclaration = true := by
  intro item hi
  rw [declaring, List.getLast?_reverse] at hi
  have hnot := List.head?_dropWhile_not (fun item : HostItem => !item.isDeclaration) m.items.reverse
  rw [hi] at hnot
  simpa using hnot

theorem declaring_map {f : HostItem → HostItem} (hf : ∀ item, (f item).isDeclaration = item.isDeclaration)
    (items : List HostItem) : declaring ⟨items.map f⟩ = (declaring ⟨items⟩).map f := by
  simp only [declaring, ← List.map_reverse, List.dropWhile_map, Function.comp_def, hf]

theorem undeclaring_map {f : HostItem → HostItem} (hf : ∀ item, (f item).isDeclaration = item.isDeclaration)
    (items : List HostItem) : undeclaring ⟨items.map f⟩ = (undeclaring ⟨items⟩).map f := by
  simp only [undeclaring, ← List.map_reverse, List.takeWhile_map, Function.comp_def, hf]

theorem names_of_symbols {m : HostModule} {t : SymbolTable} (h : m.symbols = .ok t) :
    t.names = SymbolTable.callTargets m.imports (m.functions.map FunctionBlock.name) := by
  simp only [symbols, SymbolTable.build] at h
  split at h
  · cases h
    rfl
  · cases h

end HostModule

/-- The declarations of the two variables that bound the interpreter's stack. -/
def stackDeclarations : List HostItem :=
  [.declaration "var EMTSTACKTOP = env.EMTSTACKTOP|0;" [⟨"EMTSTACKTOP", "env.EMTSTACKTOP|0"⟩],
   .declaration "var EMT_STACK_MAX = env.EMT_STACK_MAX|0;" [⟨"EMT_STACK_MAX", "env.EMT_STACK_MAX|0"⟩]]

theorem lines_stackDeclarations (l : Layout) :
    (Bindings.ofLayout l).imports = stackDeclarations.flatMap HostItem.lines := by
  show [Bindings.declare Bindings.stackTop, Bindings.declare Bindings.stackMax] = _
  decide

theorem reads_stackDeclarations : ∀ item ∈ stackDeclarations, item.Reads item.lines := by
  intro item hi
  simp only [stackDeclarations, List.mem_cons, List.not_mem_nil, or_false] at hi
  rcases hi with rfl | rfl
  · exact .declaration (by decide) (by decide +kernel)
  · exact .declaration (by decide) (by decide +kernel)

namespace HostModule

/-- The items of a transformed module. -/
def moved (m : HostModule) (interpreters : List Interpreter.Routine) : List HostItem :=
  m.declaring.map (HostItem.rewritten address?) ++ stackDeclarations ++
    m.undeclaring.map (HostItem.rewritten address?) ++ interpreters.map fun r => .function r.toBlock

variable {m : HostModule} {interpreters : List Interpreter.Routine}

/-- **The lines of a transformed module are those of its items.** -/
theorem renderLines_patch (p : Program) (l : Layout) :
    (m.patch p l.codeStart).host.renderLines (Bindings.ofLayout l).imports
        (interpreters.flatMap Interpreter.Routine.lines) =
      (m.moved (Trampoline.address? p l.codeStart) interpreters).flatMap HostItem.lines := by
  have hfill := HostItem.isDeclaration_fillItem (Trampoline.address? p l.codeStart)
  have hlines : ∀ items : List HostItem, (items.map (Trampoline.fillItem (Trampoline.address? p l.codeStart))).flatMap
      HostItem.lines = (items.map (HostItem.rewritten (Trampoline.address? p l.codeStart))).flatMap HostItem.lines := by
    intro items
    simp only [List.flatMap_map, HostItem.lines_fillItem]
  simp only [renderLines, patch, moved, List.flatMap_append, declaring_map hfill, undeclaring_map hfill, hlines,
    lines_stackDeclarations]
  refine congrArg _ ?_
  rw [List.flatMap_map]
  rfl

/-- Where the lines of a module are lines by themselves, every item of the transformed one reads back. -/
theorem reads_of_mem_moved {ls : List String} (h : Reads m.items ls) :
    ∀ item ∈ m.moved address? interpreters, item.Reads item.lines := by
  have hold : ∀ item ∈ m.items, (item.rewritten address?).Reads (item.rewritten address?).lines := fun item hi => by
    obtain ⟨part, hpart, -⟩ := h.of_mem hi
    exact hpart.rewritten address?
  rw [← m.declaring_append_undeclaring] at hold
  intro item hi
  simp only [moved, List.mem_append, List.mem_map] at hi
  rcases hi with ((⟨old, hi, rfl⟩ | hi) | ⟨old, hi, rfl⟩) | ⟨r, -, rfl⟩
  · exact hold old (List.mem_append_left _ hi)
  · exact reads_stackDeclarations item hi
  · exact hold old (List.mem_append_right _ hi)
  · exact r.reads_toBlock

theorem oneLine_of_mem_moved {ls : List String} (h : Reads m.items ls) (hl : ∀ l ∈ ls, Text.OneLine l)
    (hi : ∀ r ∈ interpreters, ∀ l ∈ r.lines, Text.OneLine l) :
    ∀ l ∈ (m.moved address? interpreters).flatMap HostItem.lines, Text.OneLine l := by
  have hold : ∀ item ∈ m.items, ∀ l ∈ (item.rewritten address?).lines, Text.OneLine l := fun item hmem => by
    obtain ⟨part, hpart, hsub⟩ := h.of_mem hmem
    exact hpart.oneLine_rewritten address? fun l hlp => hl l (hsub l hlp)
  rw [← m.declaring_append_undeclaring] at hold
  intro l hmem
  obtain ⟨item, hitem, hmem⟩ := List.mem_flatMap.1 hmem
  simp only [moved, List.mem_append, List.mem_map] at hitem
  rcases hitem with ((⟨old, hitem, rfl⟩ | hitem) | ⟨old, hitem, rfl⟩) | ⟨r, hr, rfl⟩
  · exact hold old (List.mem_append_left _ hitem) l hmem
  · have hdeclared : ∀ item ∈ stackDeclarations, ∀ l ∈ item.lines, Text.OneLine l := by decide
    exact hdeclared item hitem l hmem
  · exact hold old (List.mem_append_right _ hitem) l hmem
  · exact hi r hr l hmem

theorem imports_moved : HostModule.imports ⟨m.moved address? interpreters⟩ =
    m.declaring.flatMap HostItem.imports ++ stackDeclarations.flatMap HostItem.imports ++
      m.undeclaring.flatMap HostItem.imports := by
  have hroutines : interpreters.flatMap (fun r => (HostItem.function r.toBlock).imports) = [] :=
    List.flatMap_eq_nil_iff.2 fun r _ => rfl
  simp only [imports, moved, List.flatMap_append, List.flatMap_map, HostItem.imports_rewritten, hroutines,
    List.append_nil]

/-- Behind its last declaration a module declares nothing. -/
theorem imports_undeclaring (m : HostModule) : m.undeclaring.flatMap HostItem.imports = [] := by
  refine List.flatMap_eq_nil_iff.2 fun item hi => ?_
  have hno := m.isDeclaration_of_mem_undeclaring item hi
  cases item with
  | text => rfl
  | function => rfl
  | declaration => cases hno

end HostModule

/-- **The new text is a module again.**  For a text without carriage returns it reads as the old items in order, with
filled bodies and no listings; the bounds of the interpreter's stack are declared behind the last declaration, or at the
front without one; the three routines follow as function blocks; and the imports are the old ones and these two. -/
theorem parse_moduleText {text : String} {memory : Option StaticMemory} {m : HostModule} {a : Artifacts}
    (hr : '\r' ∉ text.toList) (hm : HostModule.parse text = .ok m) (ha : m.transform memory o = .ok a) :
    ∃ (front back : List HostItem) (routines : List FunctionBlock) (m' : HostModule),
      m.items = front ++ back ∧ (∀ item ∈ front.getLast?, item.isDeclaration = true) ∧
      (∀ item ∈ back, item.isDeclaration = false) ∧ HostModule.parse a.moduleText = .ok m' ∧
      m'.items =
        front.map (HostItem.rewritten (Trampoline.address? a.program a.layout.codeStart)) ++ stackDeclarations ++
          back.map (HostItem.rewritten (Trampoline.address? a.program a.layout.codeStart)) ++
          routines.map .function ∧
      routines.map FunctionBlock.name = ["emterpret", "emterpret_i", "emterpret_d"] ∧
      (∀ f ∈ routines, f.listing = none) ∧
      routines.flatMap FunctionBlock.lines = a.interpreters.flatMap Interpreter.Routine.lines ∧
      m'.imports = m.imports ++ [⟨"EMTSTACKTOP", "env.EMTSTACKTOP|0"⟩, ⟨"EMT_STACK_MAX", "env.EMT_STACK_MAX|0"⟩] := by
  obtain ⟨given, symbols, run, image, -, hsymbols, -, -, rfl⟩ := HostModule.transform_eq_ok_iff.1 ha
  have hreads : HostModule.Reads m.items (Text.lines text) := HostModule.parse_eq_ok_iff.1 hm
  have hlines := Text.oneLine_of_mem_lines hr
  have hnames : ∀ name ∈ symbols.names, Text.OneLine name := fun name hname =>
    HostModule.oneLine_of_mem_names hreads hlines (HostModule.names_of_symbols hsymbols ▸ hname)
  let addr := Trampoline.address? run.program image.layout.codeStart
  let interpreters := Interpreter.routines run.program.registry symbols
  have hroutines : ∀ r ∈ interpreters, ∀ l ∈ r.lines, Text.OneLine l := fun r hmem => by
    obtain ⟨kind, -, rfl⟩ := List.mem_map.1 hmem
    exact Interpreter.oneLine_lines hnames kind
  have hne : (m.moved addr interpreters).flatMap HostItem.lines ≠ [] := by
    have hfirst : "var EMTSTACKTOP = env.EMTSTACKTOP|0;" ∈ (m.moved addr interpreters).flatMap HostItem.lines :=
      List.mem_flatMap.2 ⟨_, List.mem_append_left _ (List.mem_append_left _ (List.mem_append_right _
        List.mem_cons_self)), List.mem_cons_self⟩
    exact List.ne_nil_of_mem hfirst
  refine ⟨m.declaring, m.undeclaring, interpreters.map Interpreter.Routine.toBlock, ⟨m.moved addr interpreters⟩,
    m.declaring_append_undeclaring.symm, m.isDeclaration_getLast?_declaring, m.isDeclaration_of_mem_undeclaring, ?_, ?_,
    rfl, ?_, ?_, ?_⟩
  · have htext : (m.finish symbols run.program run.diagnostics image).moduleText =
        Text.unlines ((m.moved addr interpreters).flatMap HostItem.lines) :=
      congrArg Text.unlines (HostModule.renderLines_patch run.program image.layout)
    rw [htext]
    exact HostModule.parse_unlines hne (HostModule.reads_of_mem_moved addr hreads)
      (HostModule.oneLine_of_mem_moved addr hreads hlines hroutines)
  · rw [List.map_map]
    rfl
  · intro f hf
    obtain ⟨r, -, rfl⟩ := List.mem_map.1 hf
    rfl
  · rw [List.flatMap_map]
    rfl
  · have hold : m.imports = m.declaring.flatMap HostItem.imports ++ m.undeclaring.flatMap HostItem.imports := by
      rw [← List.flatMap_append, m.declaring_append_undeclaring]
      rfl
    rw [HostModule.imports_moved, hold, m.imports_undeclaring, List.append_nil, List.append_nil]
    rfl

theorem parse_moduleText_declaration_before_text :
    '\r' ∉ ("var a = env.a;\n\x7d\nfunction _f() \x7b\n t(EMTERPRETER__f);\n\x7d // [\"FUNC\", 1, 0, 0]").toList ∧
      ∃ m, HostModule.parse
          ("var a = env.a;\n\x7d\nfunction _f() \x7b\n t(EMTERPRETER__f);\n\x7d // [\"FUNC\", 1, 0, 0]") = .ok m ∧
        m.imports = [⟨"a", "env.a"⟩] ∧ ∃ a, m.transform (some ⟨[7], 1⟩) {} = .ok a ∧
        ∃ m', HostModule.parse a.moduleText = .ok m' ∧ m'.imports = [⟨"a", "env.a"⟩,
          ⟨"EMTSTACKTOP", "env.EMTSTACKTOP|0"⟩, ⟨"EMT_STACK_MAX", "env.EMT_STACK_MAX|0"⟩] := by
  refine ⟨by decide +kernel, exists_ok_of_map_eq_ok (f := HostModule.imports) (b := [⟨"a", "env.a"⟩]) ?_
    fun m hm himports => ⟨himports, ?_⟩⟩
  · decide +kernel
  · have hrun : (HostModule.parse
        ("var a = env.a;\n\x7d\nfunction _f() \x7b\n t(EMTERPRETER__f);\n\x7d // [\"FUNC\", 1, 0, 0]") >>= fun m =>
          m.transform (some ⟨[7], 1⟩) {}).isOk = true := by decide +kernel
    rw [hm] at hrun
    obtain ⟨a, ha⟩ : ∃ a, m.transform (some ⟨[7], 1⟩) {} = .ok a := exists_ok_of_isOk hrun
    obtain ⟨front, back, routines, m', -, -, -, hm', -, -, -, -, himports'⟩ :=
      parse_moduleText (by decide +kernel) hm ha
    exact ⟨a, ha, m', hm', by rw [himports', himports]; rfl⟩

end Wordcode
