import Wordcode.Program.Disassembly
import Wordcode.Proofs.Assembly.Run
import Wordcode.Proofs.Listing.Language
/-!
# Proofs.Assembly.Walk — stepping through bytecode

The length of a call is not in the stream: a step takes it from the arity of the signature that the registry has at the
call's index (`fetch?`).  A listing's calls have as many arguments as their signatures have parameters, so a step at an
encoded instruction takes that instruction and lands behind it (`fetch?_of_drop`), and a walk over a function visits its
instructions and nothing else (`walk_function`).
-/
namespace Wordcode
namespace Program

/-- The bytes from an address on, as many as asked for. -/
def bytesAt? (p : Program) (address count : Nat) : Option (List UInt8) :=
  let bytes := (p.bytecode.drop address).take count
  if bytes.length = count then some bytes else none

/-- **The instruction at an address and the bytes it takes**, read as an interpreter reads them. -/
def fetch? (p : Program) (address : Nat) : Option (Instruction × Nat) := do
  let code ← p.bytecode[address]?
  if code = 253 then do
    let target ← p.bytecode[address + 1]?
    let index ← p.bytecode[address + 2]?
    let s ← p.registry.signature? target index
    let args ← p.bytesAt? (address + 3) s.arity
    return (.call target index args, Instr.callLen s.arity)
  else do
    let o ← (Opcode.ofCode code).toOption
    let x ← p.bytecode[address + 1]?
    let y ← p.bytecode[address + 2]?
    let z ← p.bytecode[address + 3]?
    return (.op o x y z, wordSize)

theorem pos_of_fetch? {p : Program} {address n : Nat} {i : Instruction} (h : p.fetch? address = some (i, n)) :
    0 < n := by
  obtain ⟨code, -, h⟩ := Option.bind_eq_some_iff.1 h
  split at h
  · simp only [Option.bind_eq_bind, Option.bind_eq_some_iff] at h
    obtain ⟨target, -, index, -, s, -, args, -, h⟩ := h
    cases h
    exact Nat.lt_of_lt_of_le (by omega) (Instr.le_callLen _)
  · simp only [Option.bind_eq_bind, Option.bind_eq_some_iff] at h
    obtain ⟨o, -, x, -, y, -, z, -, h⟩ := h
    cases h
    decide

/-- **The instructions from an address up to another one**, with their addresses; `none` if a step fails or oversteps
the end. -/
def walk (p : Program) (address stop : Nat) : Option (List (Nat × Instruction)) :=
  if stop ≤ address then if address = stop then some [] else none
  else
    match _h : p.fetch? address with
    | none => none
    | some (i, n) => (p.walk (address + n) stop).map ((address, i) :: ·)
termination_by stop - address
decreasing_by
  have := pos_of_fetch? _h
  omega

end Program

/-- A registry has what it takes to step over the instruction. -/
def Instruction.Fetchable (r : Registry) : Instruction → Prop
  | .op o _ _ _ => o ≠ .call
  | .call target index args => ∃ s, r.signature? target index = some s ∧ args.length = s.arity

open Program

theorem ofCode_ne_call {o : Opcode} (h : o ≠ .call) : o.code ≠ 253 := by
  cases o <;> first | decide | exact absurd rfl h

/-- **A step at an encoded instruction takes it whole.** -/
theorem fetch?_of_drop {p : Program} {address : Nat} {i : Instruction} {behind : List UInt8}
    (hi : i.Fetchable p.registry) (hd : p.bytecode.drop address = i.encode ++ behind) :
    p.fetch? address = some (i, i.encodedLen) := by
  have hget : ∀ k, p.bytecode[address + k]? = (i.encode ++ behind)[k]? := fun k => by rw [← hd, List.getElem?_drop]
  have hfirst : p.bytecode[address]? = (i.encode ++ behind)[0]? := hget 0
  unfold fetch?
  cases i with
  | op o x y z =>
    rw [hfirst, hget 1, hget 2, hget 3]
    simp [Instruction.encode, ofCode_ne_call hi, Opcode.ofCode_code, Except.toOption, Instr.encodedLen]
  | call target index args =>
    obtain ⟨s, hs, harity⟩ := hi
    have hargs : p.bytesAt? (address + 3) s.arity = some args := by
      obtain ⟨rest, hrest⟩ : ∃ rest, p.bytecode.drop (address + 3) = args ++ rest := by
        rw [← List.drop_drop, hd, Instruction.encode, List.rightpad]
        exact ⟨_, List.append_assoc _ _ _⟩
      rw [bytesAt?, hrest, List.take_left' harity]
      exact if_pos harity
    rw [hfirst, hget 1, hget 2]
    simp [Instruction.encode, List.rightpad, Opcode.code, hs, hargs, Instr.encodedLen, harity]

/-- **A walk over encoded instructions visits each where it starts.** -/
theorem walk_of_drop {p : Program} {is : List Instruction} (hi : ∀ i ∈ is, i.Fetchable p.registry) {address : Nat}
    {behind : List UInt8} (hd : p.bytecode.drop address = encodeAll is ++ behind) :
    p.walk address (address + (encodeAll is).length) = some (Disassembly.addressed address is) := by
  induction is generalizing address with
  | nil =>
    show p.walk address address = some []
    rw [walk, if_pos (Nat.le_refl _), if_pos rfl]
  | cons i is ih =>
    have hpos := i.encodedLen_pos
    have henc : encodeAll (i :: is) = i.encode ++ encodeAll is := rfl
    have hlen : address + (encodeAll (i :: is)).length = address + i.encodedLen + (encodeAll is).length := by
      rw [henc, List.length_append, Instruction.length_encode, Nat.add_assoc]
    rw [henc, List.append_assoc] at hd
    have hfetch := fetch?_of_drop (hi i List.mem_cons_self) hd
    have hnext : p.bytecode.drop (address + i.encodedLen) = encodeAll is ++ behind := by
      rw [← List.drop_drop, hd, List.drop_left' (Instruction.length_encode i)]
    rw [hlen, walk, if_neg (by omega)]
    split
    · rename_i hnone
      rw [hfetch] at hnone
      cases hnone
    · rename_i hsome
      rw [hfetch] at hsome
      cases hsome
      rw [ih (fun j hj => hi j (List.mem_cons_of_mem i hj)) hnext]
      rfl

theorem map_snd_addressed (address : Nat) (is : List Instruction) :
    (Disassembly.addressed address is).map Prod.snd = is := by
  induction is generalizing address with
  | nil => rfl
  | cons i is ih => rw [Disassembly.addressed, List.map_cons, ih]

theorem map_fst_addressed (address : Nat) (is : List Instruction) :
    (Disassembly.addressed address is).map Prod.fst =
      (List.range is.length).map fun k => address + (encodeAll (is.take k)).length := by
  induction is generalizing address with
  | nil => rfl
  | cons i is ih =>
    rw [Disassembly.addressed, List.map_cons, ih, List.length_cons, List.range_succ_eq_map, List.map_cons,
      List.map_map]
    refine congrArg _ (List.map_congr_left fun k _ => ?_)
    show _ = address + (i.encode ++ encodeAll (is.take k)).length
    rw [List.length_append, Instruction.length_encode, Nat.add_assoc]

theorem fetchable_of_spells {symbols : SymbolTable} {r : Registry} {j : Instruction} {i : SymbolicInstr}
    {ls : List Listing.Lexeme} (hi : Listing.Spells i ls) (hj : j.symbolic? symbols r = some i) : j.Fetchable r := by
  cases j with
  | op o x y z =>
    cases hj
    cases hi with
    | op ho => exact ho
  | call target index args =>
    obtain ⟨name, s, -, hs, rfl⟩ := (symbolic?_call_eq_some_iff symbols).1 hj
    cases hi with
    | call hargs harity => exact ⟨s, hs, harity⟩

/-- **The calls of a faithful function have as many arguments as the registry says.** -/
theorem AssembledFunction.Faithful.fetchable {symbols : SymbolTable} {code : List UInt8} {r : Registry}
    {f : AssembledFunction} (h : f.Faithful symbols code r) : ∀ j ∈ f.instructions, j.Fetchable r := by
  intro j hj
  obtain ⟨listing, is, hp, his⟩ := h.listed
  obtain ⟨i, hi, hji⟩ := exists_mem_of_mapM_eq_some his hj
  obtain ⟨ls, -, hspell⟩ := (Listing.spelling_of_parse hp).1
  obtain ⟨part, hpart⟩ := hspell.spells_of_mem i hi
  exact fetchable_of_spells hpart hji

/-- **A walk over a function of a program** succeeds, ends exactly behind it, and visits its instructions, each at the
sum of the lengths of those in front of it. -/
theorem walk_function {symbols : SymbolTable} {pairs : List (String × String)} {a : Assembler}
    (h : Assembler.addAll symbols .empty pairs = .ok a) {f : AssembledFunction} (hf : f ∈ a.program.functions) :
    ∃ visited, a.program.walk f.offset (f.offset + f.len) = some visited ∧ visited.map Prod.snd = f.instructions ∧
      visited.map Prod.fst =
        (List.range f.instructions.length).map fun k => f.offset + (encodeAll (f.instructions.take k)).length := by
  have hfaith := ((Assembler.sound_empty symbols).addAll h).faithful f hf
  obtain ⟨before, behind, hcode, hoff⟩ := hfaith.placed
  have hdrop : a.program.bytecode.drop f.offset = encodeAll f.instructions ++ behind := by
    show a.bytecode.drop f.offset = _
    rw [hcode, List.append_assoc, List.drop_left' hoff]
  refine ⟨Disassembly.addressed f.offset f.instructions, ?_, map_snd_addressed _ _, map_fst_addressed _ _⟩
  rw [hfaith.len_eq]
  exact walk_of_drop hfaith.fetchable hdrop

theorem walk_function_padded_call :
    ∃ a, Assembler.addAll ⟨["_g"], by decide, by decide⟩ .empty
        [("_f", "[\"FUNC\", 3, 0, 0]"), ("_k", "[1]"),
          ("_h", "[\"FUNC\", 3, 0, 0, \"CALL\", \"_g\", \"vid\", 253, 2, 7, 0, 255, \"RET\", 0, 0, 0]")] = .ok a ∧
      ⟨"_h", 4, 16, 3, [.op .prologue 3 0 0, .call 0 0 [253, 2], .op .ret 0 0 0]⟩ ∈ a.program.functions ∧
      ∃ visited, a.program.walk 4 20 = some visited ∧
        visited.map Prod.snd = [.op .prologue 3 0 0, .call 0 0 [253, 2], .op .ret 0 0 0] ∧
        visited.map Prod.fst = [4, 8, 16] := by
  refine exists_ok_of_map_eq_ok (f := fun a => a.program.functions[1]?)
    (b := some ⟨"_h", 4, 16, 3, [.op .prologue 3 0 0, .call 0 0 [253, 2], .op .ret 0 0 0]⟩) ?_ fun a ha hget => ?_
  · decide +kernel
  · have hmem := List.mem_of_getElem? hget
    exact ⟨hmem, walk_function ha hmem⟩

end Wordcode
