import Wordcode.Proofs.Assembly.Calls
import Wordcode.Proofs.Assembly.Run
/-!
# Proofs.Assembly.Faults — which listings can be assembled

A run over listings has no fault exactly if no listing has an unknown mnemonic and the calls of those that read, counted
over all of them, can be resolved (`exists_addAll_eq_ok_iff`).  Otherwise its fault is the first one: the first listing
with something wrong, and in it the first call (`addAll_eq_error_iff`).
-/
namespace Wordcode

/-- The calls of the listings that read. -/
def callsIn (pairs : List (String × String)) : List (String × Signature) :=
  (readings pairs).flatMap fun reading => callsOf reading.2

/-- The bytes that the listings that read take. -/
def codeLen (pairs : List (String × String)) : Nat :=
  ((readings pairs).map fun reading => (reading.2.map Instr.encodedLen).sum).sum

/-- **Listings that can be assembled**: no mnemonic is unknown, and the calls can be resolved. -/
structure Assemblable (targets : Finset String) (pairs : List (String × String)) : Prop where
  opcodes : ∀ pair ∈ pairs, ∀ mnemonic span, Listing.parse pair.2 ≠ .error ⟨.unknownOpcode mnemonic, span⟩
  calls : Callable targets (callsIn pairs)

/-- **What goes wrong at a listing behind other listings**: it has an unknown mnemonic, or it reads and one of its
calls, the first such, goes wrong behind all the calls before it. -/
inductive ListingFault (targets : Finset String) (before : List (String × String)) : String × String → Fault → Prop
  | unknownOpcode {name listing mnemonic : String} {span : Span}
      (hp : Listing.parse listing = .error ⟨.unknownOpcode mnemonic, span⟩) :
      ListingFault targets before (name, listing) (.unknownOpcode name mnemonic)
  | call {name listing : String} {is : List SymbolicInstr} {f : Fault} (hp : Listing.parse listing = .ok is)
      (hf : First (Callable targets) (CallFault targets name) (callsIn before ++ callsOf is) f) :
      ListingFault targets before (name, listing) f

variable {symbols : SymbolTable} {targets : Finset String} {name listing : String}

theorem readings_append (before behind : List (String × String)) :
    readings (before ++ behind) = readings before ++ readings behind :=
  List.filterMap_append

theorem callsIn_append (before behind : List (String × String)) :
    callsIn (before ++ behind) = callsIn before ++ callsIn behind := by
  rw [callsIn, readings_append, List.flatMap_append]
  rfl

theorem codeLen_append (before behind : List (String × String)) :
    codeLen (before ++ behind) = codeLen before + codeLen behind := by
  rw [codeLen, readings_append, List.map_append, List.sum_append]
  rfl

theorem readings_of_error {e : Listing.Error} (hp : Listing.parse listing = .error e) :
    readings [(name, listing)] = [] := by
  simp [readings, hp, Except.toOption]

theorem readings_of_ok {is : List SymbolicInstr} (hp : Listing.parse listing = .ok is) :
    readings [(name, listing)] = [(name, is)] := by
  simp [readings, hp, Except.toOption]

theorem callsIn_of_ok {is : List SymbolicInstr} (hp : Listing.parse listing = .ok is) :
    callsIn [(name, listing)] = callsOf is := by
  rw [callsIn, readings_of_ok hp, List.flatMap_singleton]

namespace Assemblable

theorem nil : Assemblable targets [] where
  opcodes := fun _ hpair => by cases hpair
  calls := .nil

theorem snoc {pairs : List (String × String)} (h : Assemblable targets pairs)
    (ho : ∀ mnemonic span, Listing.parse listing ≠ .error ⟨.unknownOpcode mnemonic, span⟩)
    (hc : Callable targets (callsIn (pairs ++ [(name, listing)]))) :
    Assemblable targets (pairs ++ [(name, listing)]) where
  opcodes := by
    intro pair hpair
    rcases List.mem_append.1 hpair with hpair | hpair
    · exact h.opcodes pair hpair
    · rw [List.mem_singleton.1 hpair]
      exact ho
  calls := hc

end Assemblable

theorem ListingFault.not_assemblable {before behind : List (String × String)} {pair : String × String} {f : Fault}
    (h : ListingFault targets before pair f) : ¬ Assemblable targets (before ++ pair :: behind) := by
  intro ha
  cases h with
  | unknownOpcode hp => exact ha.opcodes _ (List.mem_append_right _ List.mem_cons_self) _ _ hp
  | @call name listing is f hp hf =>
    have hcalls := ha.calls
    rw [callsIn_append, ← List.singleton_append, callsIn_append, callsIn_of_ok hp, ← List.append_assoc] at hcalls
    exact (hf.append_right _).not_clean CallFault.not_callable hcalls

theorem ListingFault.unique {before : List (String × String)} {pair : String × String} {f f' : Fault}
    (h : ListingFault targets before pair f) (h' : ListingFault targets before pair f') : f = f' := by
  cases h with
  | unknownOpcode hp =>
    cases h' with
    | unknownOpcode hp' =>
      rw [hp] at hp'
      cases hp'
      rfl
    | call hp' =>
      rw [hp] at hp'
      cases hp'
  | call hp hf =>
    cases h' with
    | unknownOpcode hp' =>
      rw [hp] at hp'
      cases hp'
    | call hp' hf' =>
      rw [hp] at hp'
      cases hp'
      exact hf.unique hf' CallFault.not_callable CallFault.unique

theorem length_encodeAll_of_symbolic? {r : Registry} {js : List Instruction} {is : List SymbolicInstr}
    (h : js.mapM (Instruction.symbolic? symbols r) = some is) :
    (encodeAll js).length = (is.map Instr.encodedLen).sum := by
  rw [length_encodeAll]
  induction js generalizing is with
  | nil => cases h; rfl
  | cons j js ih =>
    obtain ⟨i, is', hi, his, rfl⟩ := mapM_cons_eq_some_iff.1 h
    rw [List.map_cons, List.sum_cons, List.map_cons, List.sum_cons, encodedLen_of_symbolic? symbols hi, ih his]

namespace Assembler

/-- **What holds after a run without faults**: the listings could be assembled, the registry has logged their calls, and
the stream has their bytes. -/
structure Ran (symbols : SymbolTable) (pairs : List (String × String)) (a : Assembler) : Prop where
  sound : a.Sound symbols
  assemblable : Assemblable symbols.targets pairs
  logs : a.registry.Logs symbols (callsIn pairs)
  length_eq : a.bytecode.length = codeLen pairs

theorem ran_empty : Assembler.empty.Ran symbols [] where
  sound := sound_empty symbols
  assemblable := .nil
  logs := Registry.logs_empty
  length_eq := rfl

/-- **One more listing** leaves a run without faults, or has a fault of its own. -/
theorem Ran.addFunction_outcome {done : List (String × String)} {a : Assembler} (h : a.Ran symbols done)
    (name listing : String) :
    (∃ a', a.addFunction symbols name listing = (.ok (), a') ∧ a'.Ran symbols (done ++ [(name, listing)])) ∨
    ∃ f a', a.addFunction symbols name listing = (.error f, a') ∧
      ListingFault symbols.targets done (name, listing) f := by
  have hsound := h.sound.addFunction name listing
  have hadd := added symbols a name listing
  generalize a.addFunction symbols name listing = out at hadd hsound ⊢
  cases hadd with
  | @skipped e hp he =>
    have hno : readings [(name, listing)] = [] := readings_of_error hp
    have hcalls : callsIn (done ++ [(name, listing)]) = callsIn done := by
      rw [callsIn, readings_append, hno, List.append_nil]
      rfl
    refine .inl ⟨_, rfl, hsound, h.assemblable.snoc (fun mnemonic span hp' => ?_) ?_, ?_, ?_⟩
    · rw [hp] at hp'
      cases hp'
      cases he
    · rw [hcalls]
      exact h.assemblable.calls
    · rw [hcalls]
      exact h.logs
    · rw [codeLen, readings_append, hno, List.append_nil]
      exact h.length_eq
  | @refused e f hp he =>
    obtain ⟨kind, span⟩ := e
    cases kind with
    | unknownOpcode mnemonic =>
      cases he
      exact .inr ⟨_, _, rfl, .unknownOpcode hp⟩
    | _ => cases he
  | @failed is f r hp hr =>
    rcases resolveAll_outcome name h.assemblable.calls h.logs h.sound.bounded is with
      ⟨js, hjs, -⟩ | ⟨f', hf, hfirst⟩
    · rw [hr] at hjs
      cases hjs
    · rw [hr] at hf
      cases hf
      exact .inr ⟨_, _, rfl, .call hp hfirst⟩
  | @appended is js r hp hr =>
    have hcalls : callsIn (done ++ [(name, listing)]) = callsIn done ++ callsOf is := by
      rw [callsIn_append, callsIn_of_ok hp]
    rcases resolveAll_outcome name h.assemblable.calls h.logs h.sound.bounded is with
      ⟨js', -, hcallable, hlogs⟩ | ⟨f, hf, -⟩
    · rw [hr] at hlogs
      refine .inl ⟨_, rfl, hsound, h.assemblable.snoc (fun mnemonic span hp' => ?_) ?_, ?_, ?_⟩
      · rw [hp] at hp'
        cases hp'
      · rw [hcalls]
        exact hcallable
      · rw [hcalls]
        exact hlogs
      · have hlen := length_encodeAll_of_symbolic? (mapM_symbolic?_resolveAll symbols name h.sound.bounded hr)
        show (a.bytecode ++ encodeAll js).length = _
        rw [List.length_append, h.length_eq, hlen, codeLen_append]
        refine congrArg (codeLen done + ·) ?_
        rw [codeLen, readings_of_ok hp, List.map_singleton, List.sum_singleton]
    · rw [hr] at hf
      cases hf

theorem addAll_cons_eq_error {a a' : Assembler} {f : Fault} {more : List (String × String)}
    (h : a.addFunction symbols name listing = (.error f, a')) :
    addAll symbols a ((name, listing) :: more) = .error f := by
  rw [addAll, h]

theorem addAll_cons_of_ok {a a' : Assembler} {more : List (String × String)}
    (h : a.addFunction symbols name listing = (.ok (), a')) :
    addAll symbols a ((name, listing) :: more) = addAll symbols a' more := by
  rw [addAll, h]

/-- **A run over listings** goes through without faults, or stops at the first listing with a fault. -/
theorem Ran.addAll_outcome {done : List (String × String)} {a : Assembler} (h : a.Ran symbols done)
    (pairs : List (String × String)) :
    (∃ b, addAll symbols a pairs = .ok b ∧ b.Ran symbols (done ++ pairs)) ∨
    ∃ f, addAll symbols a pairs = .error f ∧
      First (Assemblable symbols.targets) (ListingFault symbols.targets) (done ++ pairs) f := by
  -- over the listings still to come, with those behind: they could be assembled, so the first fault is still to come
  induction pairs generalizing a done with
  | nil =>
    rw [List.append_nil]
    exact .inl ⟨a, rfl, h⟩
  | cons pair more ih =>
    obtain ⟨name, listing⟩ := pair
    rcases h.addFunction_outcome name listing with ⟨a', ha, hran⟩ | ⟨f, a', ha, hfault⟩
    · rw [addAll_cons_of_ok ha, ← List.singleton_append, ← List.append_assoc]
      exact ih hran
    · exact .inr ⟨f, addAll_cons_eq_error ha, .intro rfl h.assemblable hfault⟩

variable {pairs : List (String × String)}

theorem ran_of_addAll_eq_ok {b : Assembler} (h : addAll symbols .empty pairs = .ok b) : b.Ran symbols pairs := by
  rcases ran_empty.addAll_outcome pairs with ⟨b', hb, hran⟩ | ⟨f, hf, -⟩
  · rw [h] at hb
    cases hb
    exact hran
  · rw [h] at hf
    cases hf

/-- **A run has no fault exactly if the listings can be assembled.** -/
theorem exists_addAll_eq_ok_iff : (∃ b, addAll symbols .empty pairs = .ok b) ↔ Assemblable symbols.targets pairs := by
  refine ⟨fun ⟨b, hb⟩ => (ran_of_addAll_eq_ok hb).assemblable, fun ha => ?_⟩
  rcases ran_empty.addAll_outcome pairs with ⟨b, hb, -⟩ | ⟨f, -, hfirst⟩
  · exact ⟨b, hb⟩
  · exact absurd ha (hfirst.not_clean ListingFault.not_assemblable)

/-- **The fault of a run is the first one.** -/
theorem addAll_eq_error_iff {f : Fault} : addAll symbols .empty pairs = .error f ↔
    First (Assemblable symbols.targets) (ListingFault symbols.targets) pairs f := by
  rcases ran_empty.addAll_outcome pairs with ⟨b, hb, hran⟩ | ⟨f', hf', hfirst⟩
  · rw [hb]
    refine ⟨fun h => (by cases h), fun h => ?_⟩
    exact absurd hran.assemblable (h.not_clean ListingFault.not_assemblable)
  · rw [hf']
    constructor
    · rintro ⟨⟩
      exact hfirst
    · intro h
      rw [hfirst.unique h ListingFault.not_assemblable ListingFault.unique]

end Assembler
end Wordcode
