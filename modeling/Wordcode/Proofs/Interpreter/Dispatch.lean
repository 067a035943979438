import Wordcode.Proofs.Assembly.Walk
import Wordcode.Proofs.Interpreter.Blocks
import Wordcode.Proofs.Interpreter.Lines
/-!
# Proofs.Interpreter.Dispatch — the case of a call reads what the encoder wrote

The assembler writes a call as a target, an index and the locals of its arguments; a routine has, deep in its choices,
one case for each target and in it one for each index.  A call of a program is met by exactly one case, which passes as
many arguments as the call has, reads each where the encoder put it, and steps over as many bytes as the call takes; and
there are no cases but those of the registry (`dispatch_calls`).
-/
namespace Wordcode.Interpreter

variable {r : Registry} {symbols : SymbolTable} {kind : Kind}

/-- The heads on the way to the cases of call targets. -/
def dispatchPath (kind : Kind) : List String :=
  ["function " ++ kind.name ++ "(pc)", "while (1)", "switch (inst & 255)", "case 253:", "switch (lx | 0)"]

/-- The local whose index is the byte `n` places behind the start of a call, as a value of a kind. -/
def argumentText (n : Nat) : ValueKind → String
  | .int => "HEAP32[sp + (HEAPU8[pc + " ++ toString n ++ " >> 0] << 3) >> 2]|0"
  | .float => "+HEAPF64[sp + (HEAPU8[pc + " ++ toString n ++ " >> 0] << 3) >> 3]"
  | .double => "+HEAPF64[sp + (HEAPU8[pc + " ++ toString n ++ " >> 0] << 3) >> 3]"

/-- A call whose result is coerced to what the callee returns, and dropped. -/
def callText (ret : Option ValueKind) (call : String) : String :=
  match ret with
  | none => call ++ ";"
  | some .int => call ++ "|0;"
  | some .float => "+" ++ call ++ ";"
  | some .double => "+" ++ call ++ ";"

/-- **The cases of a choice**: blocks with a head each, and what is done for the others. -/
structure AreCases (lines : List String) : Prop where
  lines_eq : lines = ((blocks lines).flatMap fun b => block b.1 b.2) ++ ["default: abort();"]
  nodup : ((blocks lines).map Prod.fst).Nodup

/-- **The cases meet a call**: exactly one case of its target, in it exactly one of its index, and there the target is
called by its name with as many arguments as the call has, each read from the byte that the encoder put it in as what
its parameter is; then the call is stepped over. -/
inductive Met (symbols : SymbolTable) (r : Registry) (lines : List String) (target index : UInt8) (args : List UInt8) :
    Prop
  | intro {ofTarget signatures : List String} {name : String} {s : Signature} {passed : List String}
      (target_case : bodies [caseHead target.toNat] lines = [ofTarget])
      (choice : bodies ["switch (ly | 0)"] ofTarget = [signatures])
      (index_case : bodies [caseHead index.toNat] signatures =
        [[callText s.ret (name ++ "(" ++ ", ".intercalate passed ++ ")"),
          "pc = pc + " ++ toString (Instr.call target index args).encodedLen ++ " | 0;", "continue;"]])
      (name_eq : symbols.nameOf? target = some name)
      (signature_eq : r.signature? target index = some s)
      (params_length : s.params.length = args.length)
      (passed_length : passed.length = args.length)
      (passed_eq : ∀ i k, s.params[i]? = some k → passed[i]? = some (argumentText (3 + i) k))
      (encode_eq : ∀ i, i < args.length → (Instruction.encode (.call target index args))[3 + i]? = args[i]?)

/-- **A case of a target is the registry's**: the target has a name and signatures, and the cases in it are those of its
signatures. -/
inductive OfRegistry (symbols : SymbolTable) (r : Registry) : String × List String → Prop
  | intro {target : UInt8} {name : String} {ofTarget signatures : List String}
      (name_eq : symbols.nameOf? target = some name)
      (choice : bodies ["switch (ly | 0)"] ofTarget = [signatures])
      (registered : r.signatures target ≠ [])
      (cases : AreCases signatures)
      (index_cases : ∀ b ∈ blocks signatures, ∃ index s, r.signature? target index = some s ∧
        b.1 = caseHead index.toNat) : OfRegistry symbols r (caseHead target.toNat, ofTarget)

/-! ## Printing -/

theorem text_byteBehind (n : Nat) : (byteBehind n).text = "HEAPU8[pc + " ++ toString n ++ " >> 0]" := by
  show "HEAPU8" ++ "[" ++ ("pc" ++ " " ++ "+" ++ " " ++ toString n ++ " " ++ ">>" ++ " " ++ "0") ++ "]" = _
  rw [← String.toList_inj]
  simp [String.toList_append]

theorem text_slot_byteBehind (n : Nat) :
    (slot (byteBehind n)).text = "sp + (HEAPU8[pc + " ++ toString n ++ " >> 0] << 3)" := by
  show "sp" ++ " " ++ "+" ++ " " ++ ("(" ++ ((byteBehind n).text ++ " " ++ "<<" ++ " " ++ "3") ++ ")") = _
  rw [text_byteBehind, ← String.toList_inj]
  simp [String.toList_append]

theorem text_intValue_byteBehind (n : Nat) :
    (intValue (byteBehind n)).text = "HEAP32[sp + (HEAPU8[pc + " ++ toString n ++ " >> 0] << 3) >> 2]|0" := by
  show "HEAP32" ++ "[" ++ ((slot (byteBehind n)).text ++ " " ++ ">>" ++ " " ++ "2") ++ "]" ++ "|0" = _
  rw [text_slot_byteBehind, ← String.toList_inj]
  simp [String.toList_append]

theorem text_doubleValue_byteBehind (n : Nat) :
    (doubleValue (byteBehind n)).text = "+HEAPF64[sp + (HEAPU8[pc + " ++ toString n ++ " >> 0] << 3) >> 3]" := by
  show "+" ++ ("HEAPF64" ++ "[" ++ ((slot (byteBehind n)).text ++ " " ++ ">>" ++ " " ++ "3") ++ "]") = _
  rw [text_slot_byteBehind, ← String.toList_inj]
  simp [String.toList_append]

theorem text_argument (i : Nat) (k : ValueKind) : (argument i k).text = argumentText (3 + i) k := by
  cases k with
  | int => exact text_intValue_byteBehind (3 + i)
  | float => exact text_doubleValue_byteBehind (3 + i)
  | double => exact text_doubleValue_byteBehind (3 + i)

theorem text_callOf (name : String) (s : Signature) :
    (callOf name s).text = callText s.ret
      (name ++ "(" ++ ", ".intercalate (s.params.mapIdx fun i k => argumentText (3 + i) k) ++ ")") := by
  have hargs : (s.params.mapIdx argument).map Expr.text = s.params.mapIdx fun i k => argumentText (3 + i) k := by
    refine List.ext_getElem? fun i => ?_
    rw [List.getElem?_map, List.getElem?_mapIdx, List.getElem?_mapIdx, Option.map_map]
    exact congrArg (Option.map · _) (funext fun k => text_argument i k)
  rw [← hargs]
  obtain ⟨ret, params⟩ := s
  cases ret with
  | none => rfl
  | some k => cases k <;> rfl

theorem text_advance (n : Nat) : (Stmt.assign pc (plus pc (.num n))).text = "pc = pc + " ++ toString n ++ " | 0;" := by
  show "pc" ++ " = " ++ ("pc" ++ " " ++ "+" ++ " " ++ toString n ++ " " ++ "|" ++ " " ++ "0") ++ ";" = _
  rw [← String.toList_inj]
  simp [String.toList_append]

theorem caseHead_injective {m n : Nat} (h : caseHead m = caseHead n) : m = n := by
  have hparts : "case " ++ (toString m ++ ":") = "case " ++ (toString n ++ ":") := by
    simpa only [String.append_assoc] using (show "case " ++ toString m ++ ":" = "case " ++ toString n ++ ":" from h)
  exact Text.toString_nat_injective ((String.append_left_inj ":").1 ((String.append_right_inj "case ").1 hparts))

theorem getElem?_encode_call {target index : UInt8} {args : List UInt8} {i : Nat} (hi : i < args.length) :
    (Instruction.encode (.call target index args))[3 + i]? = args[i]? := by
  rw [Instruction.encode, List.rightpad, List.getElem?_append_left (by simp; omega), Nat.add_comm]
  rfl

/-! ## The way to the cases -/

theorem isSetIn_caseHead (label : Nat) : isSetIn (caseHead label ++ " \x7b") = false := by
  rw [caseHead, String.append_assoc, String.append_assoc]
  exact isSetIn_append_eq_false (by decide) _

theorem blocks_lines (routine : Routine) :
    blocks routine.lines = [("function " ++ routine.kind.name ++ "(pc)",
      routine.entry.map Stmt.text ++ routine.loopLines ++ routine.exit.map Stmt.text)] := by
  have hhead : isSetIn ("function " ++ routine.kind.name ++ "(pc)" ++ " \x7b") = false := by
    cases routine.kind <;> decide
  have hread := blocks_block_append hhead
    (routine.entry.map Stmt.text ++ routine.loopLines ++ routine.exit.map Stmt.text) []
  rwa [List.append_nil] at hread

theorem blocks_between {before behind : List Stmt} {head : String} (h : isSetIn (head ++ " \x7b") = false)
    (body : List String) :
    blocks (before.map Stmt.text ++ block head body ++ behind.map Stmt.text) = [(head, body)] := by
  have hbehind : blocks (behind.map Stmt.text) = [] := by
    have hnone := @blocks_append_of_none (behind.map Stmt.text) blockHead?_of_mem_map_text []
    rwa [List.append_nil] at hnone
  rw [List.append_assoc, blocks_append_of_none blockHead?_of_mem_map_text, blocks_block_append h, hbehind]

def callLines (r : Registry) (symbols : SymbolTable) : List String :=
  choice (integer lx) ((targetCases r symbols).flatMap TargetCase.lines) ++ [Stmt.leave.text]

/-- **Of the cases of opcodes only that of calls is a block.** -/
theorem blocks_cases_append (os : List Opcode) (rest : List String) :
    blocks ((os.filterMap (case? r symbols kind)).flatMap Case.lines ++ rest) =
      ((os.filter (· = .call)).map fun _ => ("case 253:", callLines r symbols)) ++ blocks rest := by
  -- over the opcodes: a call's case is the block, any other one is a line or nothing
  induction os with
  | nil => rfl
  | cons o os ih =>
    by_cases ho : o = .call
    · have hcase : case? r symbols kind o = some (.calls o.code (targetCases r symbols)) := if_pos ho
      have hhead : isSetIn ("case 253:" ++ " \x7b") = false := by decide
      have hlines : (Case.calls o.code (targetCases r symbols)).lines = block "case 253:" (callLines r symbols) := by
        rw [ho]
        rfl
      rw [List.filterMap_cons_some hcase, List.flatMap_cons, hlines, List.append_assoc, blocks_block_append hhead, ih,
        List.filter_cons, if_pos (decide_eq_true ho)]
      rfl
    · have hcase : case? r symbols kind o = (action? kind o).map (.inline o.code) := if_neg ho
      rw [List.filter_cons, if_neg (by simpa using ho), ← ih]
      cases haction : action? kind o with
      | none =>
        rw [haction] at hcase
        rw [List.filterMap_cons_none hcase]
      | some body =>
        rw [haction] at hcase
        rw [List.filterMap_cons_some hcase, List.flatMap_cons, List.append_assoc, blocks_inline_append]

theorem blocks_choice (before behind : List Stmt) {subject : Expr} {head : String}
    (hs : "switch (" ++ subject.text ++ ")" = head) (cases : List String) :
    blocks (before.map Stmt.text ++ choice subject cases ++ behind.map Stmt.text) =
      [(head, cases ++ ["default: " ++ Stmt.abort.text])] := by
  have hhead : isSetIn (head ++ " \x7b") = false := by
    rw [← hs, String.append_assoc, String.append_assoc]
    exact isSetIn_append_eq_false (by decide) _
  rw [choice, hs]
  exact blocks_between hhead _

/-- The heads on the way to the cases of opcodes. -/
def opcodePath (kind : Kind) : List String :=
  ["function " ++ kind.name ++ "(pc)", "while (1)", "switch (inst & 255)"]

/-- The cases of opcodes, with what is done for the others. -/
def opcodeLines (r : Registry) (symbols : SymbolTable) (kind : Kind) : List String :=
  (routine r symbols kind).cases.flatMap Case.lines ++ ["default: " ++ Stmt.abort.text]

/-- The cases of call targets, with what is done for the others. -/
def targetLines (r : Registry) (symbols : SymbolTable) : List String :=
  (targetCases r symbols).flatMap TargetCase.lines ++ ["default: " ++ Stmt.abort.text]

/-- **The way leads to the cases of opcodes**, and nowhere else. -/
theorem bodies_opcodePath (r : Registry) (symbols : SymbolTable) (kind : Kind) :
    bodies (opcodePath kind) (routine r symbols kind).lines = [opcodeLines r symbols kind] := by
  have hloop : blocks ((routine r symbols kind).entry.map Stmt.text ++ (routine r symbols kind).loopLines ++
      (routine r symbols kind).exit.map Stmt.text) = [("while (1)", _)] := blocks_between (by decide) _
  have hopcode : blocks (fetchStmts.map Stmt.text ++
      choice opcodeExpr ((routine r symbols kind).cases.flatMap Case.lines) ++
      [(Stmt.assign pc (plus pc (.num wordSize)))].map Stmt.text) = [("switch (inst & 255)", _)] :=
    blocks_choice fetchStmts [.assign pc (plus pc (.num wordSize))] (by decide) _
  refine (bodies_cons_of_eq (blocks_lines (routine r symbols kind)) _).trans ?_
  rw [bodies_cons_of_eq hloop]
  exact (bodies_cons_of_eq hopcode _).trans rfl

/-- **The way leads to the cases of call targets**, and nowhere else. -/
theorem bodies_dispatchPath (r : Registry) (symbols : SymbolTable) (kind : Kind) :
    bodies (dispatchPath kind) (routine r symbols kind).lines = [targetLines r symbols] := by
  have hcall : blocks (opcodeLines r symbols kind) = [("case 253:", callLines r symbols)] := by
    have hone : Opcode.all.filter (· = .call) = [.call] := by decide
    have habort : blocks ["default: " ++ Stmt.abort.text] = [] := by decide
    rw [opcodeLines, show (routine r symbols kind).cases = Opcode.all.filterMap (case? r symbols kind) from rfl,
      blocks_cases_append, hone, habort]
    rfl
  have htarget : blocks (callLines r symbols) = [("switch (lx | 0)", targetLines r symbols)] :=
    blocks_choice [] [.leave] (by decide) _
  have hpath : dispatchPath kind = opcodePath kind ++ ["case 253:", "switch (lx | 0)"] := rfl
  rw [hpath, bodies_append, bodies_opcodePath, List.flatMap_singleton, bodies_cons_of_eq hcall,
    bodies_cons_of_eq htarget]
  rfl

/-! ## The cases -/

def TargetCase.body (c : TargetCase) : List String :=
  choice (integer ly) (c.signatures.flatMap SignatureCase.lines) ++ [Stmt.leave.text]

/-- The cases of a target's signatures, with what is done for the others. -/
def TargetCase.signatureLines (c : TargetCase) : List String :=
  c.signatures.flatMap SignatureCase.lines ++ ["default: " ++ Stmt.abort.text]

theorem blocks_cases {α : Type} (label : α → Nat) (body : α → List String) (as : List α) :
    blocks ((as.flatMap fun a => block (caseHead (label a)) (body a)) ++ ["default: " ++ Stmt.abort.text]) =
      as.map fun a => (caseHead (label a), body a) := by
  have habort : blocks ["default: " ++ Stmt.abort.text] = [] := by decide
  rw [blocks_flatMap_append _ _ fun a => isSetIn_caseHead (label a), habort, List.append_nil]

/-- **Printed cases of different labels are the cases of a choice.** -/
theorem areCases {α : Type} (label : α → Nat) (body : α → List String) {as : List α} (hn : (as.map label).Nodup) :
    AreCases ((as.flatMap fun a => block (caseHead (label a)) (body a)) ++ ["default: " ++ Stmt.abort.text]) where
  lines_eq := by
    rw [blocks_cases, List.flatMap_map]
    rfl
  nodup := by
    have hheads : (as.map fun a => (caseHead (label a), body a)).map Prod.fst = (as.map label).map caseHead := by
      rw [List.map_map, List.map_map]
      rfl
    rw [blocks_cases, hheads]
    exact hn.map fun _ _ => caseHead_injective

theorem blocks_targetLines (r : Registry) (symbols : SymbolTable) :
    blocks (targetLines r symbols) = (targetCases r symbols).map fun c => (caseHead c.target.toNat, c.body) :=
  blocks_cases (fun c : TargetCase => c.target.toNat) TargetCase.body _

theorem blocks_body (c : TargetCase) : blocks c.body = [("switch (ly | 0)", c.signatureLines)] :=
  blocks_choice [] [.leave] (by decide) _

theorem blocks_signatureLines (c : TargetCase) :
    blocks c.signatureLines = c.signatures.map fun sc => (caseHead sc.index, sc.stmts.map Stmt.text) :=
  blocks_cases SignatureCase.index (fun sc => sc.stmts.map Stmt.text) _

theorem mem_blocks_targetLines {c : TargetCase} (h : c ∈ targetCases r symbols) :
    (caseHead c.target.toNat, c.body) ∈ blocks (targetLines r symbols) := by
  rw [blocks_targetLines]
  exact List.mem_map.2 ⟨c, h, rfl⟩

theorem mem_blocks_signatureLines {c : TargetCase} {sc : SignatureCase} (h : sc ∈ c.signatures) :
    (caseHead sc.index, sc.stmts.map Stmt.text) ∈ blocks c.signatureLines := by
  rw [blocks_signatureLines]
  exact List.mem_map_of_mem h

/-- **The cases of targets** are those of the targets that have a name and a signature. -/
theorem mem_targetCases_iff {c : TargetCase} :
    c ∈ targetCases r symbols ↔ ∃ name, symbols.nameOf? c.target = some name ∧ r.signatures c.target ≠ [] ∧
      c.signatures = (r.signatures c.target).mapIdx (signatureCase name) := by
  rw [targetCases, List.mem_filterMap]
  constructor
  · rintro ⟨⟨target, signatures⟩, hgroup, hc⟩
    obtain ⟨name, hname, rfl⟩ := Option.map_eq_some_iff.1 hc
    obtain ⟨rfl, hne⟩ := Registry.mem_groups_iff.1 hgroup
    exact ⟨name, hname, hne, rfl⟩
  · obtain ⟨target, signatures⟩ := c
    rintro ⟨name, hname, hne, hsignatures⟩
    simp only at hname hne hsignatures
    exact ⟨(target, r.signatures target), Registry.mem_groups_iff.2 ⟨rfl, hne⟩,
      Option.map_eq_some_iff.2 ⟨name, hname, by rw [hsignatures]⟩⟩

theorem areCases_targetLines (r : Registry) (symbols : SymbolTable) : AreCases (targetLines r symbols) := by
  refine areCases (fun c : TargetCase => c.target.toNat) TargetCase.body ?_
  -- each case has the target of the group that it comes from
  refine List.pairwise_map.2 (List.pairwise_filterMap.2 ((Registry.pairwise_groups r).imp ?_))
  intro g g' hlt c hc c' hc' heq
  obtain ⟨name, -, rfl⟩ := Option.map_eq_some_iff.1 hc
  obtain ⟨name', -, rfl⟩ := Option.map_eq_some_iff.1 hc'
  exact Nat.ne_of_lt hlt heq

theorem areCases_signatureLines {c : TargetCase} (hc : c ∈ targetCases r symbols) : AreCases c.signatureLines := by
  obtain ⟨name, -, -, hsignatures⟩ := mem_targetCases_iff.1 hc
  have hlabels : c.signatures.map SignatureCase.index = List.range (r.signatures c.target).length := by
    rw [hsignatures]
    refine List.ext_getElem (by simp) fun i h h' => ?_
    simp [signatureCase]
  refine areCases SignatureCase.index (fun sc => sc.stmts.map Stmt.text) ?_
  rw [hlabels]
  exact List.nodup_range

/-- **A call whose target has a name and whose index has a signature is met.** -/
theorem met {target index : UInt8} {args : List UInt8} {name : String} {s : Signature}
    (hname : symbols.nameOf? target = some name) (hs : r.signature? target index = some s)
    (harity : args.length = s.arity) : Met symbols r (targetLines r symbols) target index args := by
  have hne : r.signatures target ≠ [] := fun h => by
    rw [Registry.signature?, h] at hs
    cases hs
  have hc : (⟨target, (r.signatures target).mapIdx (signatureCase name)⟩ : TargetCase) ∈ targetCases r symbols :=
    mem_targetCases_iff.2 ⟨name, hname, hne, rfl⟩
  -- the case of the target has a case at the index, and its three lines are the ones that are asked for
  obtain ⟨hlt, hget⟩ := List.getElem?_eq_some_iff.1 hs
  have hcase : signatureCase name index.toNat s ∈ (r.signatures target).mapIdx (signatureCase name) :=
    List.mem_mapIdx.2 ⟨index.toNat, hlt, by rw [hget]⟩
  have hsignature := mem_blocks_signatureLines
    (c := ⟨target, (r.signatures target).mapIdx (signatureCase name)⟩) hcase
  have hstmts : (signatureCase name index.toNat s).stmts.map Stmt.text =
      [callText s.ret (name ++ "(" ++ ", ".intercalate (s.params.mapIdx fun i k => argumentText (3 + i) k) ++ ")"),
        "pc = pc + " ++ toString (Instr.call target index args).encodedLen ++ " | 0;", "continue;"] := by
    rw [Instr.encodedLen, harity, ← text_callOf, ← text_advance]
    rfl
  rw [hstmts] at hsignature
  refine .intro (bodies_cons_of_mem (areCases_targetLines r symbols).nodup (mem_blocks_targetLines hc) [])
    (bodies_cons_of_eq (blocks_body _) []) (bodies_cons_of_mem (areCases_signatureLines hc).nodup hsignature [])
    hname hs harity.symm ?_ ?_ ?_
  · rw [List.length_mapIdx]
    exact harity.symm
  · intro i k hk
    rw [List.getElem?_mapIdx, hk, Option.map_some]
  · intro i hi
    exact getElem?_encode_call hi

/-- **The cases of a target come from the registry.** -/
theorem ofRegistry (hb : r.Bounded) : ∀ b ∈ blocks (targetLines r symbols), OfRegistry symbols r b := by
  intro b hb'
  rw [blocks_targetLines] at hb'
  obtain ⟨c, hc, rfl⟩ := List.mem_map.1 hb'
  obtain ⟨name, hname, hne, hsignatures⟩ := mem_targetCases_iff.1 hc
  refine .intro hname (bodies_cons_of_eq (blocks_body c) []) hne (areCases_signatureLines hc) fun b hb' => ?_
  rw [blocks_signatureLines, hsignatures] at hb'
  obtain ⟨sc, hsc, rfl⟩ := List.mem_map.1 hb'
  obtain ⟨i, hi, rfl⟩ := List.mem_mapIdx.1 hsc
  have hsmall : i.toUInt8.toNat = i := by
    have hle : (r.signatures c.target).length ≤ 256 := hb c.target
    simp only [Nat.toUInt8_eq, UInt8.toNat_ofNat']
    omega
  refine ⟨i.toUInt8, (r.signatures c.target)[i], ?_, ?_⟩
  · rw [Registry.signature?, hsmall, List.getElem?_eq_getElem hi]
  · rw [hsmall]
    rfl

/-- **The dispatch of calls agrees with the assembler.**  Whatever listings were added, a routine for the program has
one place for the cases of call targets.  There each call of the program is met; and every case, met or not, is one that
the registry has.  The lines are those of the routine's text, unless a name has a line end in it. -/
theorem dispatch_calls {a : Assembler} (ha : a.Reached symbols) (kind : Kind) :
    ((∀ name ∈ symbols.names, Text.OneLine name) →
      Text.lines (routine a.program.registry symbols kind).text = (routine a.program.registry symbols kind).lines) ∧
    ∃ cases, bodies (dispatchPath kind) (routine a.program.registry symbols kind).lines = [cases] ∧ AreCases cases ∧
      (∀ f ∈ a.program.functions, ∀ target index args, Instr.call target index args ∈ f.instructions →
        Met symbols a.program.registry cases target index args) ∧
      ∀ b ∈ blocks cases, OfRegistry symbols a.program.registry b := by
  have hsound := ha.sound
  refine ⟨fun hn => Text.lines_unlines (List.cons_ne_nil _ _) (oneLine_lines hn kind), _,
    bodies_dispatchPath _ symbols kind, areCases_targetLines _ symbols, fun f hf target index args hcall => ?_,
    ofRegistry hsound.bounded⟩
  -- a call of a program reads back as a call of a listing, so its target has a name and its index a signature
  have hfaith := hsound.faithful f hf
  obtain ⟨s, hs, harity⟩ := hfaith.fetchable _ hcall
  obtain ⟨listing, is, -, his⟩ := hfaith.listed
  obtain ⟨i, -, hi⟩ := exists_mem_of_mapM_eq_some his hcall
  obtain ⟨name, -, hname, -, -⟩ := (symbolic?_call_eq_some_iff symbols).1 hi
  exact met hname hs harity

theorem dispatch_calls_padded_arguments :
    ∃ a, Assembler.addAll ⟨["_g", "_f"], by decide, by decide⟩ .empty
        [("_f", "[\"FUNC\", 3, 0, 0, \"CALL\", \"_g\", \"i\", 9, \"CALL\", \"_f\", \"vdi\", 1, 2, 0, 0, 0]")] = .ok a ∧
      ∃ cases, bodies (dispatchPath .double)
          (Text.lines (routine a.program.registry ⟨["_g", "_f"], by decide, by decide⟩ .double).text) = [cases] ∧
        AreCases cases ∧ Met ⟨["_g", "_f"], by decide, by decide⟩ a.program.registry cases 1 0 [1, 2] ∧
        ∀ b ∈ blocks cases, OfRegistry ⟨["_g", "_f"], by decide, by decide⟩ a.program.registry b := by
  refine exists_ok_of_map_eq_ok (f := fun a => a.program.functions.map AssembledFunction.instructions)
    (b := [[.op .prologue 3 0 0, .call 0 0 [], .call 1 0 [1, 2]]]) ?_ fun a ha hfunctions => ?_
  · decide +kernel
  · obtain ⟨f, hf, hinstructions⟩ := List.mem_map.1 (hfunctions ▸ List.mem_singleton_self _)
    obtain ⟨hlines, cases, hcases, hare, hmet, hregistry⟩ := dispatch_calls (Assembler.Reached.empty.addAll ha) .double
    rw [hlines (by decide)]
    exact ⟨cases, hcases, hare, hmet f hf 1 0 [1, 2] (by simp [hinstructions]), hregistry⟩

end Wordcode.Interpreter
