import Wordcode.Program.Disassembly
import Wordcode.Proofs.Assembly.Run
import Wordcode.Proofs.Listing.Language
/-!
# Proofs.Assembly.Slots — a byte for each element

A listing has as many elements as its function has bytes.  What the element of a byte is for is known from the
instructions (`slots`), and what the byte is from the element (`Slot.Carries`): instruction by instruction
(`carried_encode`), so in a whole function (`carried_encodeAll`).  An instruction's address is then the index of its
mnemonic (`inStep_addFunction`), and a branch over instructions is one over their elements.
-/
namespace Wordcode
namespace Listing

/-- What an element is for. -/
inductive Slot
  | mnemonic (o : Opcode)
  | target (name : String)
  | signature (target : String) (s : Signature)
  /-- An operand, or an argument of a call. -/
  | value
  | padding
deriving DecidableEq, Repr

/-- What the elements of an instruction are for. -/
def slots : SymbolicInstr → List Slot
  | .op o _ _ _ => [.mnemonic o, .value, .value, .value]
  | .call target s _ =>
    .mnemonic .call :: .target target :: .signature target s ::
      (List.replicate s.arity .value ++ List.replicate (Instr.callLen s.arity - (3 + s.arity)) .padding)

variable (symbols : SymbolTable) (r : Registry)

/-- **The byte of an element**: an integer is itself, but a zero where it is padding. -/
inductive Slot.Carries : Slot → Lexeme → UInt8 → Prop
  | mnemonic (o : Opcode) : Carries (.mnemonic o) (.name o.mnemonic) o.code
  | target {name : String} {id : UInt8} (hid : symbols.nameOf? id = some name) :
      Carries (.target name) (.name name) id
  | signature {name : String} {s : Signature} {id index : UInt8} (hid : symbols.nameOf? id = some name)
      (hs : r.signature? id index = some s) : Carries (.signature name s) (.name s.text) index
  | value {l : Lexeme} {b : UInt8} (hl : l.IsByte b) : Carries .value l b
  | padding {l : Lexeme} {b : UInt8} (hl : l.IsByte b) : Carries .padding l 0

/-- Elements and the bytes for them, side by side. -/
inductive Carried : List Slot → List Lexeme → List UInt8 → Prop
  | nil : Carried [] [] []
  | cons {slot : Slot} {l : Lexeme} {b : UInt8} {rest : List Slot} {ls : List Lexeme} {bs : List UInt8}
      (h : slot.Carries symbols r l b) (hs : Carried rest ls bs) : Carried (slot :: rest) (l :: ls) (b :: bs)

variable {symbols : SymbolTable} {r : Registry}

namespace Carried

variable {all all' : List Slot} {ls ls' : List Lexeme} {bs bs' : List UInt8}

theorem append (h : Carried symbols r all ls bs) (h' : Carried symbols r all' ls' bs') :
    Carried symbols r (all ++ all') (ls ++ ls') (bs ++ bs') := by
  induction h with
  | nil => exact h'
  | cons hslot _ ih => exact .cons hslot ih

theorem length_lexemes (h : Carried symbols r all ls bs) : ls.length = all.length := by
  induction h with
  | nil => rfl
  | cons _ _ ih => exact congrArg (· + 1) ih

theorem length_bytes (h : Carried symbols r all ls bs) : bs.length = all.length := by
  induction h with
  | nil => rfl
  | cons _ _ ih => exact congrArg (· + 1) ih

theorem getElem? (h : Carried symbols r all ls bs) {p : Nat} {slot : Slot} (hp : all[p]? = some slot) :
    ∃ l b, ls[p]? = some l ∧ bs[p]? = some b ∧ slot.Carries symbols r l b := by
  induction h generalizing p with
  | nil => cases hp
  | @cons slot' l b _ _ _ hslot _ ih =>
    cases p with
    | zero => cases hp; exact ⟨l, b, rfl, rfl, hslot⟩
    | succ p => exact ih hp

end Carried

theorem carried_replicate {slot : Slot} {f : UInt8 → UInt8}
    (hslot : ∀ l b, Lexeme.IsByte b l → slot.Carries symbols r l (f b)) {bs : List UInt8} {ls : List Lexeme}
    (h : List.Forall₂ Lexeme.IsByte bs ls) :
    Carried symbols r (List.replicate bs.length slot) ls (bs.map f) := by
  induction h with
  | nil => exact .nil
  | cons hl _ ih => exact .cons (hslot _ _ hl) ih

/-- **An instruction's encoding has a byte for each of its elements.** -/
theorem carried_encode {i : SymbolicInstr} {j : Instruction} {part : List Lexeme} (hi : Spells i part)
    (hj : j.symbolic? symbols r = some i) : Carried symbols r (slots i) part j.encode := by
  cases j with
  | op o x y z =>
    cases hj
    cases hi with
    | op ho hx hy hz => exact .cons (.mnemonic o) (.cons (.value hx) (.cons (.value hy) (.cons (.value hz) .nil)))
  | call id index args =>
    obtain ⟨name, s, hid, hs, rfl⟩ := (symbolic?_call_eq_some_iff symbols).1 hj
    cases hi with
    | @call target _ args pads largs lpads hargs harity hpads hlen =>
      -- the encoding has as many zeros behind the arguments as the listing has elements of padding there
      have hzeros : Instr.callLen args.length - (3 + args.length) = pads.length := by
        rw [harity] at hlen ⊢
        omega
      have hencode : Instruction.encode (.call id index args) =
          Opcode.call.code :: id :: index :: (args ++ pads.map fun _ => 0) := by
        simp only [Instruction.encode, List.rightpad, List.length_cons, List.map_const', List.cons_append]
        rw [← hzeros, show args.length + 1 + 1 + 1 = 3 + args.length by omega]
      have hvalues : Carried symbols r (List.replicate s.arity .value) largs args := by
        have h : Carried symbols r (List.replicate args.length .value) largs (args.map fun b => b) :=
          carried_replicate (fun _ _ => .value) hargs
        rwa [harity, List.map_id'] at h
      have hpadding : Carried symbols r (List.replicate pads.length .padding) lpads (pads.map fun _ => 0) :=
        carried_replicate (fun _ _ => .padding) hpads
      rw [hencode, slots, ← harity, hzeros, harity]
      exact .cons (.mnemonic .call) (.cons (.target hid) (.cons (.signature hid hs) (hvalues.append hpadding)))

/-- **So has the encoding of a run of instructions.** -/
theorem carried_encodeAll {is : List SymbolicInstr} {js : List Instruction} {ls : List Lexeme} (his : Spelling is ls)
    (hjs : js.mapM (Instruction.symbolic? symbols r) = some is) :
    Carried symbols r (is.flatMap slots) ls (encodeAll js) := by
  induction js generalizing is ls with
  | nil =>
    cases hjs
    rw [(spelling_nil_iff ls).1 his]
    exact .nil
  | cons j js ih =>
    obtain ⟨i, is', hj, hjs', rfl⟩ := mapM_cons_eq_some_iff.1 hjs
    obtain ⟨part, rest, hi, hrest, rfl⟩ := (spelling_cons_iff i is' ls).1 his
    exact (carried_encode hi hj).append (ih hrest hjs')

/-- As many bytes are in front of an instruction as elements. -/
theorem length_encodeAll_take {is : List SymbolicInstr} {js : List Instruction} {ls : List Lexeme}
    (his : Spelling is ls) (hjs : js.mapM (Instruction.symbolic? symbols r) = some is) (k : Nat) :
    (encodeAll (js.take k)).length = ((is.take k).flatMap slots).length := by
  obtain ⟨front, behind, hfront, -, -⟩ := his.split k
  exact (carried_encodeAll hfront (mapM_take_drop hjs k).1).length_bytes

/-- The elements behind so many bytes spell the instruction and all behind it. -/
theorem spelling_drop {is : List SymbolicInstr} {js : List Instruction} {ls : List Lexeme}
    (his : Spelling is ls) (hjs : js.mapM (Instruction.symbolic? symbols r) = some is) (k : Nat) :
    Spelling (is.drop k) (ls.drop (encodeAll (js.take k)).length) := by
  obtain ⟨front, behind, hfront, hbehind, rfl⟩ := his.split k
  have hcarried := carried_encodeAll hfront (mapM_take_drop hjs k).1
  rwa [List.drop_left' (hcarried.length_lexemes.trans hcarried.length_bytes.symm)]

theorem Spells.head? {i : SymbolicInstr} {ls : List Lexeme} (h : Spells i ls) :
    ls.head? = some (.name i.opcode.mnemonic) := by
  cases h <;> rfl

/-- Where an instruction is spelled from, its mnemonic stands. -/
theorem Spelling.mnemonic {is : List SymbolicInstr} {ts : List Token} {n k : Nat} {i : SymbolicInstr}
    (h : Spelling (is.drop k) ((lexemes ts).drop n)) (hi : is[k]? = some i) :
    ∃ t, ts[n]? = some t ∧ t.lexeme = .name i.opcode.mnemonic := by
  rw [(getElem?_eq_some_iff_drop is k i).1 hi] at h
  obtain ⟨part, behind, hpart, -, hts⟩ := (spelling_cons_iff i _ _).1 h
  have hhead : (lexemes ts)[n]? = some (.name i.opcode.mnemonic) := by
    rw [← List.head?_drop, hts, List.head?_append, hpart.head?]
    rfl
  rw [lexemes, List.getElem?_map] at hhead
  exact Option.map_eq_some_iff.1 hhead

end Listing

namespace AssembledFunction

open Listing

/-- The address of an instruction, from the start of the function. -/
def address (f : AssembledFunction) (k : Nat) : Nat := ((f.instructions.take k).map Instr.encodedLen).sum

/-- **The function has a byte for each element of a listing.** -/
structure InStep (symbols : SymbolTable) (code : List UInt8) (r : Registry) (is : List SymbolicInstr)
    (ts : List Token) (f : AssembledFunction) : Prop where
  len_eq : f.len = ts.length
  slots_length : (is.flatMap slots).length = ts.length
  dvd_address : ∀ k, 4 ∣ f.address k
  /-- The address of an instruction counts the elements of those in front of it. -/
  address_eq : ∀ k, f.address k = ((is.take k).flatMap slots).length
  /-- At the element of that index, reading goes on with the instruction. -/
  reads : ∀ k, words (ts.drop (f.address k)) = .ok (is.drop k)
  mnemonic : ∀ k j, f.instructions[k]? = some j →
    ∃ t, ts[f.address k]? = some t ∧ t.lexeme = .name j.opcode.mnemonic
  /-- A branch jumps over as many bytes as over elements. -/
  branch : ∀ k j, f.instructions[k]? = some j → ∃ i, is[k]? = some i ∧
    Disassembly.target? (f.address k) j =
      i.branchOffset?.map fun offset => (((is.take k).flatMap slots).length + offset * 4 : Int)
  carried : ∀ p slot, (is.flatMap slots)[p]? = some slot →
    ∃ t b, ts[p]? = some t ∧ code[f.offset + p]? = some b ∧ slot.Carries symbols r t.lexeme b

variable {symbols : SymbolTable} {r : Registry} {is : List SymbolicInstr} {js : List Instruction} {ts : List Token}

theorem address_place (name : String) (offset : Nat) (js : List Instruction) (k : Nat) :
    (place name offset js).address k = (encodeAll (js.take k)).length := (length_encodeAll (js.take k)).symm

/-- **What is placed at the end of a stream is in step** with what it was resolved from. -/
theorem inStep_place {code : List UInt8} {name : String} (his : Spelling is (lexemes ts))
    (hjs : js.mapM (Instruction.symbolic? symbols r) = some is) :
    (place name code.length js).InStep symbols (code ++ encodeAll js) r is ts := by
  have hall := carried_encodeAll his hjs
  have hlen : (is.flatMap slots).length = ts.length := by rw [← hall.length_lexemes, length_lexemes]
  have haddress : ∀ k, (place name code.length js).address k = ((is.take k).flatMap slots).length := fun k =>
    (address_place name code.length js k).trans (length_encodeAll_take his hjs k)
  exact
    { len_eq := hall.length_bytes.trans hlen
      slots_length := hlen
      dvd_address := fun k => by
        rw [address_place]
        exact wordSize_dvd_length_encodeAll _
      address_eq := haddress
      reads := fun k => by
        rw [address_place, words_eq_ok_iff, lexemes, List.map_drop]
        exact spelling_drop his hjs k
      mnemonic := fun k j hj => by
        obtain ⟨i, hi, hji⟩ := getElem?_of_mapM_eq_some hjs hj
        rw [address_place, opcode_of_symbolic? symbols hji]
        exact (spelling_drop his hjs k).mnemonic hi
      branch := fun k j hj => by
        obtain ⟨i, hi, hji⟩ := getElem?_of_mapM_eq_some hjs hj
        refine ⟨i, hi, ?_⟩
        rw [haddress, ← branchOffset?_of_symbolic? symbols hji]
        rfl
      carried := fun p slot hp => by
        obtain ⟨l, b, hl, hb, hcarries⟩ := hall.getElem? hp
        rw [lexemes, List.getElem?_map] at hl
        obtain ⟨t, ht, rfl⟩ := Option.map_eq_some_iff.1 hl
        refine ⟨t, b, ht, ?_, hcarries⟩
        show (code ++ encodeAll js)[code.length + p]? = some b
        rw [List.getElem?_append_right (Nat.le_add_right _ _), Nat.add_sub_cancel_left]
        exact hb }

end AssembledFunction

namespace Assembler

variable {symbols : SymbolTable}

/-- **A byte for each element.**  A listing that reads and is resolved makes a function at the end of the stream that is
as long as the listing has elements; each instruction has the address of its mnemonic, a multiple of four; and each byte
is what its element says, but for padding, which is zero whatever the listing has there. -/
theorem inStep_addFunction {a b : Assembler} (ha : a.Reached symbols) {name listing : String}
    {is : List SymbolicInstr} (hp : Listing.parse listing = .ok is)
    (hb : a.addFunction symbols name listing = (.ok (), b)) :
    ∃ f ts, b.functions = a.functions ++ [f] ∧ f.offset = a.bytecode.length ∧ f.ReadsAs symbols b.registry (name, is) ∧
      Listing.tokens listing = .ok ts ∧ f.InStep symbols b.bytecode b.registry is ts := by
  obtain ⟨ts, hts, hspell, -⟩ := Listing.exists_tokens_of_parse hp
  have hadd := added symbols a name listing
  rw [hb] at hadd
  cases hadd with
  | skipped hp' =>
    rw [hp] at hp'
    cases hp'
  | @appended is' js r hp' hr =>
    rw [hp] at hp'
    cases hp'
    have hjs := mapM_symbolic?_resolveAll symbols name ha.sound.bounded hr
    exact ⟨.place name a.bytecode.length js, ts, rfl, rfl, ⟨rfl, hjs⟩, hts,
      AssembledFunction.inStep_place hspell hjs⟩

/-- A call behind another function, with three elements of padding that are not all zero. -/
theorem inStep_addFunction_padded_call :
    ∃ (a b : Assembler) (listing : String) (is : List SymbolicInstr) (f : AssembledFunction) (ts : List Listing.Token),
      listing = "[\"FUNC\", 3, 0, 0, \"CALL\", \"_g\", \"vid\", 253, 2, 7, 0, 255, \"RET\", 0, 0, 0]" ∧
      a.Reached ⟨["_g"], by decide, by decide⟩ ∧ Listing.parse listing = .ok is ∧
      a.addFunction ⟨["_g"], by decide, by decide⟩ "_h" listing = (.ok (), b) ∧
      b.bytecode = [255, 3, 0, 0, 255, 3, 0, 0, 253, 0, 0, 253, 2, 0, 0, 0, 254, 0, 0, 0] ∧
      b.functions = a.functions ++ [f] ∧ Listing.tokens listing = .ok ts ∧
      f.InStep ⟨["_g"], by decide, by decide⟩ b.bytecode b.registry is ts := by
  obtain ⟨listing, hl⟩ : ∃ listing,
    listing = "[\"FUNC\", 3, 0, 0, \"CALL\", \"_g\", \"vid\", 253, 2, 7, 0, 255, \"RET\", 0, 0, 0]" := ⟨_, rfl⟩
  have ha : Reached ⟨["_g"], by decide, by decide⟩
      ⟨.empty, [255, 3, 0, 0], [⟨"_f", 0, 4, 3, [.op .prologue 3 0 0]⟩], []⟩ := by
    have hadd : (empty.addFunction ⟨["_g"], by decide, by decide⟩ "_f" "[\"FUNC\", 3, 0, 0]").2 =
      ⟨.empty, [255, 3, 0, 0], [⟨"_f", 0, 4, 3, [.op .prologue 3 0 0]⟩], []⟩ := by decide +kernel
    exact hadd ▸ Reached.empty.add _ _
  have hp : Listing.parse listing =
      .ok [.op .prologue 3 0 0, .call "_g" ⟨none, [.int, .double]⟩ [253, 2], .op .ret 0 0 0] := by
    rw [hl]
    decide +kernel
  have hb : addFunction ⟨["_g"], by decide, by decide⟩
      ⟨.empty, [255, 3, 0, 0], [⟨"_f", 0, 4, 3, [.op .prologue 3 0 0]⟩], []⟩ "_h" listing = (.ok (),
      ⟨⟨[(0, ⟨none, [.int, .double]⟩)]⟩, [255, 3, 0, 0, 255, 3, 0, 0, 253, 0, 0, 253, 2, 0, 0, 0, 254, 0, 0, 0],
        [⟨"_f", 0, 4, 3, [.op .prologue 3 0 0]⟩,
          ⟨"_h", 4, 16, 3, [.op .prologue 3 0 0, .call 0 0 [253, 2], .op .ret 0 0 0]⟩], []⟩) := by
    rw [hl]
    decide +kernel
  obtain ⟨f, ts, hf, -, -, hts, h⟩ := inStep_addFunction ha hp hb
  exact ⟨_, _, listing, _, f, ts, hl, ha, hp, hb, rfl, hf, hts, h⟩

end Assembler
end Wordcode
