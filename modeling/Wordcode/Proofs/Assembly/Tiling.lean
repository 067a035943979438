import Wordcode.Proofs.Assembly.Accounts
import Wordcode.Proofs.Listing.Language
/-!
# Proofs.Assembly.Tiling — functions tile the stream, and the stream only grows

Listings are added one after the other, whatever comes of each (`addEach`).  The functions lie behind each other from
the start of the stream to its end, and what an earlier listing put there stays (`tiled_addEach`).
-/
namespace Wordcode

variable {symbols : SymbolTable}

/-- The functions lie behind each other from one place of a stream to another. -/
def Tiles : Nat → List AssembledFunction → Nat → Prop
  | start, [], stop => start = stop
  | start, f :: fs, stop => f.offset = start ∧ Tiles (start + f.len) fs stop

/-- The bytes of a function are its instructions, and its locals are what its header asks for. -/
structure AssembledFunction.Fills (code : List UInt8) (f : AssembledFunction) : Prop where
  aligned : wordSize ∣ f.len
  len_eq : f.len = (f.instructions.map Instr.encodedLen).sum
  bytes_eq : (code.drop f.offset).take f.len = f.instructions.flatMap Instruction.encode
  locals_eq : f.instructions = [] ∧ f.len = 0 ∧ f.locals = 0 ∨
    ∃ n y z rest, f.instructions = .op .prologue n y z :: rest ∧ f.locals = n

structure Program.Tiled (p : Program) : Prop where
  tiles : Tiles 0 p.functions p.bytecode.length
  fills : ∀ f ∈ p.functions, f.Fills p.bytecode

theorem tiles_concat {f : AssembledFunction} {stop : Nat} (hf : f.offset = stop) :
    ∀ {start : Nat} {fs : List AssembledFunction}, Tiles start fs stop → Tiles start (fs ++ [f]) (stop + f.len)
  | _, [], h => by subst h; exact ⟨hf, rfl⟩
  | _, _ :: _, ⟨ho, h⟩ => ⟨ho, tiles_concat hf h⟩

/-- A function that a listing made is empty, or starts with its header. -/
theorem AssembledFunction.Faithful.headed {code : List UInt8} {r : Registry} {f : AssembledFunction}
    (h : f.Faithful symbols code r) : f.instructions = [] ∧ f.len = 0 ∧ f.locals = 0 ∨
      ∃ n y z rest, f.instructions = .op .prologue n y z :: rest ∧ f.locals = n := by
  obtain ⟨listing, is, hp, his⟩ := h.listed
  have hlen := h.len_eq
  have hlocals := h.locals_eq
  cases hjs : f.instructions with
  | nil =>
    rw [hjs] at hlen hlocals
    exact .inl ⟨rfl, hlen, hlocals⟩
  | cons j js =>
    rw [hjs] at his hlocals
    obtain ⟨i, is', hi, -, rfl⟩ := mapM_cons_eq_some_iff.1 his
    obtain ⟨n, y, z, rfl⟩ := (Listing.spelling_of_parse hp).2 i rfl
    cases j with
    | op => cases hi; exact .inr ⟨n, y, z, js, rfl, hlocals⟩
    | call target index args =>
      obtain ⟨name, s, -, -, hcall⟩ := (symbolic?_call_eq_some_iff symbols).1 hi
      cases hcall

theorem AssembledFunction.Faithful.fills {code : List UInt8} {r : Registry} {f : AssembledFunction}
    (h : f.Faithful symbols code r) : f.Fills code where
  aligned := by rw [h.len_eq]; exact wordSize_dvd_length_encodeAll _
  len_eq := by rw [h.len_eq, length_encodeAll]
  bytes_eq := by
    obtain ⟨before, behind, hcode, hoff⟩ := h.placed
    rw [hcode, List.append_assoc, List.drop_left' hoff, h.len_eq, List.take_left' rfl]
    rfl
  locals_eq := h.headed

namespace Assembler

/-- The assembler that listings leave when they are added one after the other, whatever comes of each. -/
def addEach (symbols : SymbolTable) (a : Assembler) (pairs : List (String × String)) : Assembler :=
  pairs.foldl (fun a pair => (a.addFunction symbols pair.1 pair.2).2) a

theorem addEach_cons (a : Assembler) (pair : String × String) (more : List (String × String)) :
    a.addEach symbols (pair :: more) = ((a.addFunction symbols pair.1 pair.2).2).addEach symbols more := rfl

theorem addEach_append (a : Assembler) (before behind : List (String × String)) :
    a.addEach symbols (before ++ behind) = (a.addEach symbols before).addEach symbols behind := by
  unfold addEach
  exact List.foldl_append

/-- Whatever a step keeps, adding listings keeps. -/
theorem addEach_induction {P : Assembler → Prop}
    (step : ∀ a name listing, P a → P (a.addFunction symbols name listing).2) :
    ∀ (pairs : List (String × String)) {a : Assembler}, P a → P (a.addEach symbols pairs)
  | [], _, h => h
  | pair :: more, a, h => by
    rw [addEach_cons]
    exact addEach_induction step more (step a pair.1 pair.2 h)

/-- **The later assembler has all that the earlier one had**, and has it in front. -/
structure Grows (a b : Assembler) : Prop where
  bytecode : a.bytecode <+: b.bytecode
  functions : a.functions <+: b.functions
  diagnostics : a.diagnostics <+: b.diagnostics
  signatures : ∀ target, a.registry.signatures target <+: b.registry.signatures target

theorem Grows.refl (a : Assembler) : a.Grows a :=
  ⟨List.prefix_rfl, List.prefix_rfl, List.prefix_rfl, fun _ => List.prefix_rfl⟩

theorem Grows.trans {a b c : Assembler} (h : a.Grows b) (h' : b.Grows c) : a.Grows c where
  bytecode := h.bytecode.trans h'.bytecode
  functions := h.functions.trans h'.functions
  diagnostics := h.diagnostics.trans h'.diagnostics
  signatures := fun target => (h.signatures target).trans (h'.signatures target)

theorem grows_addFunction (a : Assembler) (name listing : String) :
    a.Grows (a.addFunction symbols name listing).2 := by
  have hext : a.registry.Extends (a.addFunction symbols name listing).2.registry := extends_addFunction a name listing
  have hadd := added symbols a name listing
  generalize a.addFunction symbols name listing = out at hadd hext ⊢
  cases hadd with
  | skipped => exact ⟨List.prefix_rfl, List.prefix_rfl, List.prefix_append _ _, hext⟩
  | refused => exact .refl a
  | failed => exact ⟨List.prefix_rfl, List.prefix_rfl, List.prefix_rfl, hext⟩
  | appended => exact ⟨List.prefix_append _ _, List.prefix_append _ _, List.prefix_rfl, hext⟩

theorem grows_addEach (a : Assembler) (pairs : List (String × String)) : a.Grows (a.addEach symbols pairs) :=
  addEach_induction (fun b name listing h => h.trans (grows_addFunction b name listing)) pairs (.refl a)

/-- **One more listing keeps the stream tiled**: only one that resolves adds a function, and adds it at the end. -/
theorem tiles_addFunction {a : Assembler} (h : Tiles 0 a.functions a.bytecode.length) (name listing : String) :
    Tiles 0 (a.addFunction symbols name listing).2.functions
      (a.addFunction symbols name listing).2.bytecode.length := by
  have hadd := added symbols a name listing
  generalize a.addFunction symbols name listing = out at hadd ⊢
  cases hadd with
  | skipped | refused | failed => exact h
  | @appended is js r hp hr =>
    show Tiles 0 (a.functions ++ [_]) (a.bytecode ++ encodeAll js).length
    rw [List.length_append]
    exact tiles_concat rfl h

theorem Sound.addEach {a : Assembler} (h : a.Sound symbols) (pairs : List (String × String)) :
    (a.addEach symbols pairs).Sound symbols :=
  addEach_induction (fun _ name listing hs => hs.addFunction name listing) pairs h

/-- **Functions tile the stream, and the assembler is append-only.**  After any listings, added one after the other
also behind one that is skipped or fails, the functions lie behind each other from the start of the stream to its end,
and everything is behind what there was after the first few of the listings. -/
theorem tiled_addEach (symbols : SymbolTable) (before behind : List (String × String)) :
    (Assembler.empty.addEach symbols (before ++ behind)).program.Tiled ∧
      (Assembler.empty.addEach symbols before).Grows (Assembler.empty.addEach symbols (before ++ behind)) := by
  have htiles : Tiles 0 Assembler.empty.functions Assembler.empty.bytecode.length := rfl
  have hsound := (sound_empty symbols).addEach (before ++ behind)
  refine ⟨⟨?_, fun f hf => (hsound.faithful f hf).fills⟩, ?_⟩
  · exact addEach_induction (P := fun a => Tiles 0 a.functions a.bytecode.length)
      (fun _ name listing h => tiles_addFunction h name listing) (before ++ behind) htiles
  · rw [addEach_append]
    exact grows_addEach _ behind

end Assembler
end Wordcode
