import Mathlib.Algebra.BigOperators.Ring.List
import Mathlib.Algebra.Ring.Nat
import Mathlib.Data.List.Forall2
import Wordcode.Proofs.Assembly.Symbolic
import Wordcode.Proofs.Outcome
/-!
# Proofs.Assembly.Run — what a run of listings leaves

One more listing is skipped, refused, fails while it is resolved, or is appended (`Added`).  Whatever it does, every
function stays where it is and keeps reading back as the listing it came from (`Sound.addFunction`), so a program is its
listings in symbols (`forall₂_readsAs_program`).
-/
namespace Wordcode

variable {symbols : SymbolTable}

namespace Assembler

/-- **What one more listing can do.** -/
inductive Added (symbols : SymbolTable) (a : Assembler) (name listing : String) :
    Except Fault Unit × Assembler → Prop
  | skipped {e : Listing.Error} (hp : Listing.parse listing = .error e) (he : e.escalate name = none) :
      Added symbols a name listing (.ok (), a.warn (e.toDiagnostic name listing))
  | refused {e : Listing.Error} {f : Fault} (hp : Listing.parse listing = .error e)
      (he : e.escalate name = some f) : Added symbols a name listing (.error f, a)
  | failed {is : List SymbolicInstr} {f : Fault} {r : Registry} (hp : Listing.parse listing = .ok is)
      (hr : resolveAll symbols name a.registry is = (.error f, r)) :
      Added symbols a name listing (.error f, { a with registry := r })
  | appended {is : List SymbolicInstr} {js : List Instruction} {r : Registry} (hp : Listing.parse listing = .ok is)
      (hr : resolveAll symbols name a.registry is = (.ok js, r)) :
      Added symbols a name listing (.ok (), a.append r name js)

theorem added (symbols : SymbolTable) (a : Assembler) (name listing : String) :
    Added symbols a name listing (a.addFunction symbols name listing) := by
  unfold addFunction
  cases hp : Listing.parse listing with
  | error e =>
    simp only
    cases he : e.escalate name with
    | none => exact .skipped hp he
    | some f => exact .refused hp he
  | ok is =>
    simp only
    rcases hr : resolveAll symbols name a.registry is with ⟨f | js, r⟩
    · exact .failed hp hr
    · exact .appended hp hr

end Assembler

/-- A function in a stream, as a listing put it there. -/
structure AssembledFunction.Faithful (symbols : SymbolTable) (code : List UInt8) (r : Registry)
    (f : AssembledFunction) : Prop where
  placed : ∃ before behind, code = before ++ encodeAll f.instructions ++ behind ∧ before.length = f.offset
  len_eq : f.len = (encodeAll f.instructions).length
  locals_eq : f.locals = localCount f.instructions
  aligned : wordSize ∣ f.offset
  /-- It reads back as a listing. -/
  listed : ∃ listing is, Listing.parse listing = .ok is ∧
    f.instructions.mapM (Instruction.symbolic? symbols r) = some is

theorem AssembledFunction.Faithful.stop_le {code : List UInt8} {r : Registry} {f : AssembledFunction}
    (h : f.Faithful symbols code r) : f.offset + f.len ≤ code.length := by
  obtain ⟨before, behind, hcode, hoff⟩ := h.placed
  rw [hcode, List.length_append, List.length_append, hoff, h.len_eq]
  exact Nat.le_add_right _ _

/-- **A stream grows behind a function, and a registry beside it.** -/
theorem AssembledFunction.Faithful.mono {code code' : List UInt8} {r r' : Registry} {f : AssembledFunction}
    (h : f.Faithful symbols code r) (hc : code <+: code') (hr : r.Extends r') : f.Faithful symbols code' r' := by
  obtain ⟨before, behind, hcode, hoff⟩ := h.placed
  obtain ⟨more, rfl⟩ := hc
  obtain ⟨listing, is, hp, his⟩ := h.listed
  refine ⟨⟨before, behind ++ more, ?_, hoff⟩, h.len_eq, h.locals_eq, h.aligned,
    listing, is, hp, mapM_symbolic?_of_extends symbols hr his⟩
  rw [hcode]
  simp

/-- **Encoding a run of instructions takes the bytes that they announce.** -/
theorem length_encodeAll (is : List Instruction) : (encodeAll is).length = (is.map Instr.encodedLen).sum := by
  induction is with
  | nil => rfl
  | cons i is ih =>
    rw [encodeAll, List.flatMap_cons, List.length_append, Instruction.length_encode, List.map_cons, List.sum_cons]
    exact congrArg _ ih

theorem wordSize_dvd_length_encodeAll (is : List Instruction) : wordSize ∣ (encodeAll is).length := by
  rw [length_encodeAll]
  refine List.dvd_sum fun n hn => ?_
  obtain ⟨i, -, rfl⟩ := List.mem_map.1 hn
  exact i.dvd_encodedLen

/-- The function that a listing makes at the end of a stream. -/
theorem AssembledFunction.faithful_place {code : List UInt8} {r : Registry} {name listing : String}
    {is : List SymbolicInstr} {js : List Instruction} (hc : wordSize ∣ code.length)
    (hp : Listing.parse listing = .ok is) (hjs : js.mapM (Instruction.symbolic? symbols r) = some is) :
    (AssembledFunction.place name code.length js).Faithful symbols (code ++ encodeAll js) r where
  placed := ⟨code, [], (List.append_nil _).symm, rfl⟩
  len_eq := rfl
  locals_eq := rfl
  aligned := hc
  listed := ⟨listing, is, hp, hjs⟩

namespace Assembler

/-- **What holds after any run**: indices fit in a byte, the stream is whole words, and each function is faithful. -/
structure Sound (symbols : SymbolTable) (a : Assembler) : Prop where
  bounded : a.registry.Bounded
  aligned : wordSize ∣ a.bytecode.length
  faithful : ∀ f ∈ a.functions, f.Faithful symbols a.bytecode a.registry

theorem sound_empty (symbols : SymbolTable) : Assembler.empty.Sound symbols where
  bounded := Registry.bounded_empty
  aligned := Nat.dvd_zero _
  faithful := fun _ hf => by cases hf

/-- **One more listing keeps a run sound**, also one that is skipped or fails. -/
theorem Sound.addFunction {a : Assembler} (h : a.Sound symbols) (name listing : String) :
    (a.addFunction symbols name listing).2.Sound symbols := by
  have hadd := added symbols a name listing
  generalize a.addFunction symbols name listing = out at hadd ⊢
  cases hadd with
  | skipped => exact ⟨h.bounded, h.aligned, h.faithful⟩
  | refused => exact h
  | @failed is f r hp hr =>
    have hext := extends_resolveAll symbols name a.registry is
    have hb := bounded_resolveAll symbols name h.bounded is
    rw [hr] at hext hb
    exact ⟨hb, h.aligned, fun f hf => (h.faithful f hf).mono (List.prefix_refl _) hext⟩
  | @appended is js r hp hr =>
    have hext := extends_resolveAll symbols name a.registry is
    have hb := bounded_resolveAll symbols name h.bounded is
    rw [hr] at hext hb
    have hjs := mapM_symbolic?_resolveAll symbols name h.bounded hr
    refine ⟨hb, ?_, fun f hf => ?_⟩
    · show wordSize ∣ (a.bytecode ++ encodeAll js).length
      rw [List.length_append]
      exact Nat.dvd_add h.aligned (wordSize_dvd_length_encodeAll js)
    · rcases List.mem_append.1 hf with hf | hf
      · exact (h.faithful f hf).mono (List.prefix_append _ _) hext
      · rw [List.mem_singleton.1 hf]
        exact AssembledFunction.faithful_place h.aligned hp hjs

theorem addAll_cons_eq_ok_iff (symbols : SymbolTable) (a b : Assembler) (name listing : String)
    (more : List (String × String)) :
    addAll symbols a ((name, listing) :: more) = .ok b ↔
      ∃ a', a.addFunction symbols name listing = (.ok (), a') ∧ addAll symbols a' more = .ok b := by
  rw [addAll]
  rcases a.addFunction symbols name listing with ⟨f | ⟨⟩, a'⟩
  · simp
  · simp

/-- **A run without faults is sound.** -/
theorem Sound.addAll {a b : Assembler} (h : a.Sound symbols) {pairs : List (String × String)}
    (hrun : Assembler.addAll symbols a pairs = .ok b) : b.Sound symbols := by
  induction pairs generalizing a with
  | nil => cases hrun; exact h
  | cons p more ih =>
    obtain ⟨a', ha, hrun⟩ := (addAll_cons_eq_ok_iff symbols a b p.1 p.2 more).1 hrun
    have hs := h.addFunction p.1 p.2
    rw [ha] at hs
    exact ih hs hrun

/-- **An assembler that listings were added to**, one after the other, whatever came of each. -/
inductive Reached (symbols : SymbolTable) : Assembler → Prop
  | empty : Reached symbols .empty
  | add {a : Assembler} (h : Reached symbols a) (name listing : String) :
      Reached symbols (a.addFunction symbols name listing).2

theorem Reached.sound {a : Assembler} (h : Reached symbols a) : a.Sound symbols := by
  induction h with
  | empty => exact sound_empty symbols
  | add _ name listing ih => exact ih.addFunction name listing

/-- A run without faults adds its listings one after the other. -/
theorem Reached.addAll {a b : Assembler} (h : Reached symbols a) {pairs : List (String × String)}
    (hrun : Assembler.addAll symbols a pairs = .ok b) : Reached symbols b := by
  induction pairs generalizing a with
  | nil => cases hrun; exact h
  | cons p more ih =>
    obtain ⟨a', ha, hrun⟩ := (addAll_cons_eq_ok_iff symbols a b p.1 p.2 more).1 hrun
    have hr := h.add p.1 p.2
    rw [ha] at hr
    exact ih hr hrun

end Assembler

/-- The listings that read, with the names of their functions. -/
def readings (pairs : List (String × String)) : List (String × List SymbolicInstr) :=
  pairs.filterMap fun (name, listing) => (Listing.parse listing).toOption.map fun is => (name, is)

/-- The function has the name, and its instructions read back as the listing, every look-up succeeding. -/
def AssembledFunction.ReadsAs (symbols : SymbolTable) (r : Registry) (f : AssembledFunction)
    (reading : String × List SymbolicInstr) : Prop :=
  f.name = reading.1 ∧ f.instructions.mapM (Instruction.symbolic? symbols r) = some reading.2

theorem AssembledFunction.ReadsAs.mono {r r' : Registry} (h : r.Extends r') {f : AssembledFunction}
    {reading : String × List SymbolicInstr} (hf : f.ReadsAs symbols r reading) : f.ReadsAs symbols r' reading :=
  ⟨hf.1, mapM_symbolic?_of_extends symbols h hf.2⟩

theorem readings_cons (p : String × String) (more : List (String × String)) :
    readings (p :: more) = readings [p] ++ readings more := by
  rw [readings, ← List.singleton_append, List.filterMap_append]
  rfl

/-- **One more listing without a fault** goes on the end of what has been read, and nothing read before changes. -/
theorem forall₂_readsAs_addFunction {a a' : Assembler} (hs : a.Sound symbols)
    {done : List (String × List SymbolicInstr)}
    (hd : List.Forall₂ (AssembledFunction.ReadsAs symbols a.registry) a.functions done) {name listing : String}
    (h : a.addFunction symbols name listing = (.ok (), a')) :
    List.Forall₂ (AssembledFunction.ReadsAs symbols a'.registry) a'.functions
      (done ++ readings [(name, listing)]) := by
  have hadd := Assembler.added symbols a name listing
  rw [h] at hadd
  cases hadd with
  | @skipped e hp he =>
    rw [show readings [(name, listing)] = [] by simp [readings, hp, Except.toOption], List.append_nil]
    exact hd
  | @appended is js r hp hr =>
    have hext := extends_resolveAll symbols name a.registry is
    rw [hr] at hext
    rw [show readings [(name, listing)] = [(name, is)] by simp [readings, hp, Except.toOption]]
    refine List.rel_append (hd.imp fun _ _ hf => hf.mono hext) (.cons ⟨rfl, ?_⟩ .nil)
    exact mapM_symbolic?_resolveAll symbols name hs.bounded hr

theorem forall₂_readsAs_addAll {a b : Assembler} (hs : a.Sound symbols)
    {done : List (String × List SymbolicInstr)}
    (hd : List.Forall₂ (AssembledFunction.ReadsAs symbols a.registry) a.functions done)
    {pairs : List (String × String)} (h : Assembler.addAll symbols a pairs = .ok b) :
    List.Forall₂ (AssembledFunction.ReadsAs symbols b.registry) b.functions (done ++ readings pairs) := by
  induction pairs generalizing a done with
  | nil =>
    cases h
    rw [show readings [] = [] from rfl, List.append_nil]
    exact hd
  | cons p more ih =>
    obtain ⟨a', ha, h⟩ := (Assembler.addAll_cons_eq_ok_iff symbols a b p.1 p.2 more).1 h
    have hs' := hs.addFunction p.1 p.2
    rw [ha] at hs'
    rw [readings_cons, ← List.append_assoc]
    exact ih hs' (forall₂_readsAs_addFunction hs hd ha) h

/-- **A program is its listings in symbols**: after a run without faults, the functions are the listings that read, one
for one and in order, and each reads back, by the registry at the end of the run, as its listing did. -/
theorem forall₂_readsAs_program {pairs : List (String × String)} {a : Assembler}
    (h : Assembler.addAll symbols .empty pairs = .ok a) :
    List.Forall₂ (AssembledFunction.ReadsAs symbols a.program.registry) a.program.functions (readings pairs) :=
  forall₂_readsAs_addAll (Assembler.sound_empty symbols) .nil h

theorem forall₂_readsAs_program_skipped_between_calls :
    ∃ a, Assembler.addAll ⟨["_g", "_f", "_h"], by decide, by decide⟩ .empty
        [("_f", "[\"FUNC\", 1, 0, 0, \"CALL\", \"_g\", \"vi\", 0, \"CALL\", \"_g\", \"vd\", 0]"), ("_k", "[]]"),
          ("_h", "[\"FUNC\", 1, 0, 0, \"CALL\", \"_g\", \"vd\", 0, \"CALL\", \"_f\", \"v\", 9]")] = .ok a ∧
      List.Forall₂ (AssembledFunction.ReadsAs ⟨["_g", "_f", "_h"], by decide, by decide⟩ a.program.registry)
        a.program.functions
        [("_f", [.op .prologue 1 0 0, .call "_g" ⟨none, [.int]⟩ [0], .call "_g" ⟨none, [.double]⟩ [0]]),
          ("_h", [.op .prologue 1 0 0, .call "_g" ⟨none, [.double]⟩ [0], .call "_f" ⟨none, []⟩ []])] := by
  refine (exists_ok_of_isOk ?_).imp fun a ha => ⟨ha, ?_⟩
  · decide +kernel
  · exact (congrArg (List.Forall₂ _ _) (by decide +kernel)).mp (forall₂_readsAs_program ha)

end Wordcode
