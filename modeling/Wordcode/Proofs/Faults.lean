import Wordcode.Proofs.Assembly.Faults
import Wordcode.Proofs.Planning
import Wordcode.Proofs.Transform
/-!
# Proofs.Faults — when a transform succeeds, and with which fault it fails

The stages of a transform decide step by step what can be said by counting: so many names, so many signatures of each,
so many bytes.  A transform succeeds exactly if there is static memory and all counts fit (`Transformable`); otherwise
its fault is that of the first stage that cannot be done (`FirstFault`).  `transform_outcome` says both.
-/
namespace Wordcode

variable {o : Options}

namespace Image

/-- The address behind the stack of an image. -/
def stop (given : StaticMemory) (codeLen : Nat) (o : Options) : Nat :=
  o.staticBase.toNat + Layout.alignUp (Layout.alignUp given.size.toNat + codeLen) + o.stackCapacity.toNat

/-- **Static memory with room** for so much bytecode and the stack. -/
structure Fits (given : StaticMemory) (codeLen : Nat) (o : Options) : Prop where
  data_le : given.data.length ≤ given.size.toNat
  aligned : 8 ∣ o.staticBase.toNat
  stop_le : stop given codeLen o ≤ 2 ^ 32 - 1

/-- **Why an image is refused**: the data, then the base, then the end. -/
inductive Refused (given : StaticMemory) (codeLen : Nat) (o : Options) : Fault → Prop
  | budget (hd : given.size.toNat < given.data.length) :
      Refused given codeLen o (.memoryBudgetExceeded given.data.length given.size)
  | base (hd : given.data.length ≤ given.size.toNat) (hb : ¬ 8 ∣ o.staticBase.toNat) :
      Refused given codeLen o (.misalignedStaticBase o.staticBase)
  | space (hd : given.data.length ≤ given.size.toNat) (hb : 8 ∣ o.staticBase.toNat)
      (hs : 2 ^ 32 - 1 < stop given codeLen o) :
      Refused given codeLen o (.addressSpaceExhausted (stop given codeLen o))

variable {given : StaticMemory} {code : List UInt8}

/-- **What building an image can do.** -/
theorem build_outcome (given : StaticMemory) (code : List UInt8) (o : Options) :
    (Fits given code.length o ∧ ∃ i, build given code o = .ok i) ∨
    ∃ f, Refused given code.length o f ∧ build given code o = .error f := by
  by_cases hd : given.size.toNat < given.data.length
  · exact .inr ⟨_, .budget hd, if_pos hd⟩
  have hle : given.data.length ≤ given.size.toNat := Nat.not_lt.1 hd
  rw [build, if_neg hd]
  by_cases hb : 8 ∣ o.staticBase.toNat
  · rcases Layout.plan_of_dvd hb with ⟨hs, l, hl⟩ | ⟨hs, hl⟩ <;> rw [hl]
    · exact .inl ⟨⟨hle, hb, hs⟩, _, rfl⟩
    · exact .inr ⟨_, .space hle hb hs, rfl⟩
  · rw [Layout.plan_of_not_dvd hb]
    exact .inr ⟨_, .base hle hb, rfl⟩

theorem Refused.not_fits {codeLen : Nat} {f : Fault} (h : Refused given codeLen o f) : ¬ Fits given codeLen o := by
  intro hfits
  cases h with
  | budget hd => exact Nat.not_lt.2 hfits.data_le hd
  | base _ hb => exact hb hfits.aligned
  | space _ _ hs => exact Nat.not_lt.2 hfits.stop_le hs

theorem Refused.unique {codeLen : Nat} {f f' : Fault} (h : Refused given codeLen o f)
    (h' : Refused given codeLen o f') : f = f' := by
  cases h <;> cases h' <;> first | rfl | contradiction | omega

theorem exists_build_eq_ok_iff : (∃ i, build given code o = .ok i) ↔ Fits given code.length o := by
  rcases build_outcome given code o with ⟨hfits, hok⟩ | ⟨f, hrefused, hf⟩
  · exact ⟨fun _ => hfits, fun _ => hok⟩
  · rw [hf]
    exact ⟨fun ⟨_, h⟩ => (by cases h), fun h => absurd h hrefused.not_fits⟩

theorem build_eq_error_iff {f : Fault} : build given code o = .error f ↔ Refused given code.length o f := by
  rcases build_outcome given code o with ⟨hfits, i, hi⟩ | ⟨f', hrefused, hf⟩
  · rw [hi]
    exact ⟨fun h => (by cases h), fun h => absurd hfits h.not_fits⟩
  · rw [hf]
    exact ⟨fun h => (by cases h; exact hrefused), fun h => (by rw [hrefused.unique h])⟩

end Image

namespace HostModule

variable {m : HostModule} {memory : Option StaticMemory}

/-- **The names of a module that get an id**: those of its callable imports and of its functions, without the runtime
helpers. -/
def targets (m : HostModule) : Finset String :=
  (((m.imports.filter Import.isCallable).map Import.name ++ m.functions.map FunctionBlock.name).filter
    fun name => !SymbolTable.isDenied name).toFinset

/-- **What a transform takes**: ids for the names, listings that can be assembled with them, and room in memory. -/
structure Transformable (m : HostModule) (given : StaticMemory) (o : Options) : Prop where
  targets_lt : m.targets.card < 256
  assemblable : Assemblable m.targets m.listings
  fits : Image.Fits given (codeLen m.listings) o

/-- **The fault of the first stage that cannot be done**, the stages before it having been done. -/
inductive FirstFault (m : HostModule) (o : Options) : Option StaticMemory → Fault → Prop
  | memory : FirstFault m o none .missingMemoryImage
  | symbols {given : StaticMemory} (ht : 256 ≤ m.targets.card) :
      FirstFault m o (some given) (.symbolSpaceExhausted m.targets.card)
  | assembly {given : StaticMemory} {f : Fault} (ht : m.targets.card < 256)
      (hf : First (Assemblable m.targets) (ListingFault m.targets) m.listings f) : FirstFault m o (some given) f
  | image {given : StaticMemory} {f : Fault} (ht : m.targets.card < 256) (ha : Assemblable m.targets m.listings)
      (hf : Image.Refused given (codeLen m.listings) o f) : FirstFault m o (some given) f

theorem toFinset_callTargets (m : HostModule) :
    (SymbolTable.callTargets m.imports (m.functions.map FunctionBlock.name)).toFinset = m.targets := by
  ext name
  rw [targets, List.mem_toFinset, List.mem_toFinset, SymbolTable.callTargets, SymbolTable.firstSeen,
    List.mem_eraseDups]

theorem card_targets (m : HostModule) :
    m.targets.card = (SymbolTable.callTargets m.imports (m.functions.map FunctionBlock.name)).length := by
  rw [← toFinset_callTargets]
  exact List.toFinset_card_of_nodup (SymbolTable.nodup_eraseDups _)

theorem exists_symbols_of_lt (ht : m.targets.card < 256) : ∃ t, m.symbols = .ok t ∧ t.targets = m.targets := by
  rw [card_targets] at ht
  exact ⟨_, dif_pos ht, m.toFinset_callTargets⟩

theorem symbols_of_le (ht : 256 ≤ m.targets.card) : m.symbols = .error (.symbolSpaceExhausted m.targets.card) := by
  rw [card_targets] at ht ⊢
  exact dif_neg (Nat.not_lt.2 ht)

/-- A table of a module's names was made for few enough of them, and has them all. -/
theorem targets_of_symbols {t : SymbolTable} (hs : m.symbols = .ok t) :
    m.targets.card < 256 ∧ t.targets = m.targets := by
  by_cases ht : m.targets.card < 256
  · obtain ⟨t', hs', heq⟩ := exists_symbols_of_lt ht
    rw [hs] at hs'
    cases hs'
    exact ⟨ht, heq⟩
  · rw [symbols_of_le (Nat.not_lt.1 ht)] at hs
    cases hs

theorem symbols_eq_error_iff {f : Fault} :
    m.symbols = .error f ↔ 256 ≤ m.targets.card ∧ f = .symbolSpaceExhausted m.targets.card := by
  by_cases ht : m.targets.card < 256
  · obtain ⟨t, hs, -⟩ := exists_symbols_of_lt ht
    rw [hs]
    exact ⟨fun h => (by cases h), fun h => absurd ht (Nat.not_lt.2 h.1)⟩
  · rw [symbols_of_le (Nat.not_lt.1 ht)]
    exact ⟨fun h => (by cases h; exact ⟨Nat.not_lt.1 ht, rfl⟩), fun h => h.2 ▸ rfl⟩

/-- **A refused transform, unpacked.** -/
theorem transform_some_eq_error_iff {given : StaticMemory} {f : Fault} :
    m.transform (some given) o = .error f ↔
      m.symbols = .error f ∨ ∃ symbols, m.symbols = .ok symbols ∧
        (Assembler.addAll symbols .empty m.listings = .error f ∨
          ∃ run, Assembler.addAll symbols .empty m.listings = .ok run ∧
            Image.build given run.bytecode o = .error f) := by
  rw [transform, bind_eq_error_iff]
  refine or_congr_right (exists_congr fun symbols => and_congr_right fun _ => ?_)
  rw [bind_eq_error_iff, assemble, bind_eq_error_iff]
  constructor
  · rintro ((h | ⟨_, _, h⟩) | ⟨⟨p, ds⟩, hrun, h⟩)
    · exact .inl h
    · cases h
    · obtain ⟨run, hadd, hp⟩ := bind_eq_ok_iff.1 hrun
      cases hp
      rcases bind_eq_error_iff.1 h with h | ⟨_, _, h⟩
      · exact .inr ⟨run, hadd, h⟩
      · cases h
  · rintro (h | ⟨run, hrun, h⟩)
    · exact .inl (.inl h)
    · exact .inr ⟨(run.program, run.diagnostics), bind_eq_ok_iff.2 ⟨run, hrun, rfl⟩, bind_eq_error_iff.2 (.inl h)⟩

theorem exists_transform_eq_ok_iff :
    (∃ a, m.transform memory o = .ok a) ↔ ∃ given, memory = some given ∧ m.Transformable given o := by
  simp only [transform_eq_ok_iff]
  constructor
  · rintro ⟨a, given, symbols, run, image, rfl, hs, hrun, hi, -⟩
    obtain ⟨ht, heq⟩ := targets_of_symbols hs
    have hran := Assembler.ran_of_addAll_eq_ok hrun
    have hfits := Image.exists_build_eq_ok_iff.1 ⟨image, hi⟩
    exact ⟨given, rfl, ht, heq ▸ hran.assemblable, hran.length_eq ▸ hfits⟩
  · rintro ⟨given, rfl, h⟩
    obtain ⟨t, hs, heq⟩ := exists_symbols_of_lt h.targets_lt
    obtain ⟨run, hrun⟩ := Assembler.exists_addAll_eq_ok_iff.2 (heq ▸ h.assemblable)
    have hran := Assembler.ran_of_addAll_eq_ok hrun
    obtain ⟨image, hi⟩ := Image.exists_build_eq_ok_iff.2 (hran.length_eq ▸ h.fits)
    exact ⟨_, given, t, run, image, rfl, hs, hrun, hi, rfl⟩

theorem transform_eq_error_iff {f : Fault} : m.transform memory o = .error f ↔ m.FirstFault o memory f := by
  cases memory with
  | none =>
    constructor
    · intro h
      cases h
      exact .memory
    · intro h
      cases h
      rfl
  | some given =>
    rw [transform_some_eq_error_iff]
    constructor
    · rintro (hs | ⟨t, hs, hf⟩)
      · obtain ⟨ht, rfl⟩ := symbols_eq_error_iff.1 hs
        exact .symbols ht
      · obtain ⟨ht, heq⟩ := targets_of_symbols hs
        rcases hf with hf | ⟨run, hrun, hf⟩
        · exact .assembly ht (heq ▸ Assembler.addAll_eq_error_iff.1 hf)
        · have hran := Assembler.ran_of_addAll_eq_ok hrun
          have hrefused := Image.build_eq_error_iff.1 hf
          exact .image ht (heq ▸ hran.assemblable) (hran.length_eq ▸ hrefused)
    · intro h
      cases h with
      | symbols ht => exact .inl (symbols_eq_error_iff.2 ⟨ht, rfl⟩)
      | assembly ht hf =>
        obtain ⟨t, hs, heq⟩ := exists_symbols_of_lt ht
        exact .inr ⟨t, hs, .inl (Assembler.addAll_eq_error_iff.2 (heq ▸ hf))⟩
      | image ht ha hf =>
        obtain ⟨t, hs, heq⟩ := exists_symbols_of_lt ht
        obtain ⟨run, hrun⟩ := Assembler.exists_addAll_eq_ok_iff.2 (heq ▸ ha)
        have hran := Assembler.ran_of_addAll_eq_ok hrun
        exact .inr ⟨t, hs, .inr ⟨run, hrun, Image.build_eq_error_iff.2 (hran.length_eq ▸ hf)⟩⟩

/-- **When a transform succeeds, and with which fault it fails.**  It succeeds exactly if there is static memory, the
names fit in a table, the listings can be assembled and memory has room; otherwise its fault is the first one, stage by
stage, listing by listing, call by call. -/
theorem transform_outcome (m : HostModule) (memory : Option StaticMemory) (o : Options) :
    ((∃ a, m.transform memory o = .ok a) ↔ ∃ given, memory = some given ∧ m.Transformable given o) ∧
    ∀ f, m.transform memory o = .error f ↔ m.FirstFault o memory f :=
  ⟨exists_transform_eq_ok_iff, fun _ => transform_eq_error_iff⟩

end HostModule
end Wordcode
