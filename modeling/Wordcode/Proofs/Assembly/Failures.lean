import Mathlib.Logic.Function.Basic
import Wordcode.Proofs.Assembly.Calls
import Wordcode.Proofs.Assembly.Run
/-!
# Proofs.Assembly.Failures — what a listing that fails leaves behind

A listing that does not read leaves one warning or nothing.  One whose resolution stops at a call leaves the signatures
of the calls in front of that call, registered in order, and nothing else (`addFunction_failure`).  A registry kept as
lists that are made when a target is first asked for never has an empty one (`lists_register`).
-/
namespace Wordcode
namespace Registry

/-- The registry with more signatures registered, one after the other. -/
def registerAll (r : Registry) (entries : List (UInt8 × Signature)) : Registry :=
  entries.foldl (fun r entry => (r.register entry.1 entry.2).2) r

theorem registerAll_append (r : Registry) (before behind : List (UInt8 × Signature)) :
    r.registerAll (before ++ behind) = (r.registerAll before).registerAll behind := by
  unfold registerAll
  exact List.foldl_append

theorem register_of_full (r : Registry) {target : UInt8} {s : Signature} (hnew : s ∉ r.signatures target)
    (hfull : capacity ≤ (r.signatures target).length) : r.register target s = (none, r) := by
  unfold register
  simp only [List.idxOf?_eq_none_iff.2 hnew, if_neg (Nat.not_lt.2 hfull)]

/-! ## Lists on demand -/

/-- For each target that was asked for, the list of its signatures. -/
abbrev Lists := UInt8 → Option (List Signature)

/-- A registry seen as lists: only targets with signatures have one. -/
def lists (r : Registry) : Lists := fun target =>
  if r.signatures target = [] then none else some (r.signatures target)

/-- Registering in lists: the target's list is there, made if need be, before the signature is looked for in it. -/
def Lists.register (ls : Lists) (target : UInt8) (s : Signature) : Option UInt8 × Lists :=
  let known := (ls target).getD []
  match known.idxOf? s with
  | some index => (some index.toUInt8, Function.update ls target (some known))
  | none =>
    if known.length < capacity then (some known.length.toUInt8, Function.update ls target (some (known ++ [s])))
    else (none, Function.update ls target (some known))

def Lists.registerAll (ls : Lists) (entries : List (UInt8 × Signature)) : Lists :=
  entries.foldl (fun ls entry => (Lists.register ls entry.1 entry.2).2) ls

theorem getD_lists (r : Registry) (target : UInt8) : (r.lists target).getD [] = r.signatures target := by
  unfold lists
  by_cases h : r.signatures target = [] <;> simp [h]

theorem update_lists_of_ne_nil {r : Registry} {target : UInt8} (h : r.signatures target ≠ []) :
    Function.update r.lists target (some (r.signatures target)) = r.lists := by
  refine Function.update_eq_self_iff.2 ?_
  unfold lists
  rw [if_neg h]

theorem lists_push (r : Registry) (target : UInt8) (s : Signature) :
    (r.push target s).lists = Function.update r.lists target (some (r.signatures target ++ [s])) := by
  funext other
  unfold lists
  by_cases h : other = target
  · subst h
    rw [Function.update_self, signatures_push_self, if_neg (by simp)]
  · rw [Function.update_of_ne h, signatures_push_of_ne r s h]

/-- **Lists on demand are the registry's**: a list that registering makes is filled at once, and one that has no room
for a signature is not empty. -/
theorem lists_register (r : Registry) (target : UInt8) (s : Signature) :
    Lists.register r.lists target s = ((r.register target s).1, (r.register target s).2.lists) := by
  unfold Lists.register register
  simp only [getD_lists]
  cases hk : (r.signatures target).idxOf? s with
  | some k =>
    have hne : r.signatures target ≠ [] := List.ne_nil_of_mem (List.isSome_idxOf?.1 (by rw [hk]; rfl))
    simp only [update_lists_of_ne_nil hne]
  | none =>
    by_cases hlt : (r.signatures target).length < capacity
    · simp only [if_pos hlt, lists_push]
    · have hne : r.signatures target ≠ [] := fun hnil => hlt (by rw [hnil]; decide)
      simp only [if_neg hlt, update_lists_of_ne_nil hne]

theorem lists_registerAll (r : Registry) (entries : List (UInt8 × Signature)) :
    Lists.registerAll r.lists entries = (r.registerAll entries).lists :=
  List.foldl_hom lists fun r entry => by rw [lists_register]

theorem lists_ne_some_nil (r : Registry) (target : UInt8) : r.lists target ≠ some [] := by
  unfold lists
  by_cases h : r.signatures target = [] <;> simp [h]

end Registry

variable {symbols : SymbolTable} {function : String} {r r' : Registry}

/-- The pairs that registering is asked for at the calls among instructions: each target by its id. -/
def Numbered (symbols : SymbolTable) (is : List SymbolicInstr) (entries : List (UInt8 × Signature)) : Prop :=
  List.Forall₂ (fun call entry => symbols.idOf? call.1 = some entry.1 ∧ call.2 = entry.2) (callsOf is) entries

/-- **A call that is refused**, and what the registry is asked for at it: nothing if its target is unknown; else its
signature, which is new to a target that has all it can have. -/
inductive CallRefused (symbols : SymbolTable) (function : String) (r : Registry) :
    SymbolicInstr → List (UInt8 × Signature) → Fault → Prop
  | unknown {target : String} {s : Signature} {args : List UInt8} (hid : symbols.idOf? target = none) :
      CallRefused symbols function r (.call target s args) [] (.unknownCallTarget function target)
  | full {target : String} {s : Signature} {args : List UInt8} {id : UInt8} (hid : symbols.idOf? target = some id)
      (hnew : s ∉ r.signatures id) (hfull : Registry.capacity ≤ (r.signatures id).length) :
      CallRefused symbols function r (.call target s args) [(id, s)] (.signatureSpaceExhausted target)

/-- **Where the resolution of instructions stops**: at a call that is refused behind instructions that are resolved.
What registering was asked for in front of it, in order, makes the registry what it is then.  In lists on demand all
that was asked for, at the refused call too, makes the same lists, and none of them is empty. -/
inductive HaltsAt (symbols : SymbolTable) (function : String) (r : Registry) (is : List SymbolicInstr) (f : Fault)
    (r' : Registry) : Prop
  | intro {front behind : List SymbolicInstr} {i : SymbolicInstr} {js : List Instruction}
      {entries asked : List (UInt8 × Signature)} (split : is = front ++ i :: behind)
      (resolved : resolveAll symbols function r front = (.ok js, r')) (numbered : Numbered symbols front entries)
      (refused : CallRefused symbols function r' i asked f) (registered : r' = r.registerAll entries)
      (lists_eq : r'.lists = Registry.Lists.registerAll r.lists (entries ++ asked))
      (filled : ∀ target, Registry.Lists.registerAll r.lists (entries ++ asked) target ≠ some [])

theorem resolve_eq_error_iff {i : SymbolicInstr} {f : Fault} :
    resolve symbols function r i = (.error f, r') ↔ r' = r ∧ ∃ asked, CallRefused symbols function r i asked f := by
  constructor
  · intro h
    rcases resolve_cases symbols function r i with
      ⟨o, x, y, z, rfl, hr⟩ | ⟨target, s, args, rfl, ⟨hid, hr⟩ | ⟨id, hid, hr, ho⟩⟩
    · rw [hr] at h
      cases h
    · rw [hr] at h
      cases h
      exact ⟨rfl, [], .unknown hid⟩
    · rw [h] at hr ho
      rcases r.register_cases id s with ⟨k, -, hreg⟩ | ⟨-, -, hreg⟩ | ⟨hnew, hfull, hreg⟩ <;> rw [hreg] at hr ho
      · cases ho
      · cases ho
      · cases ho
        exact ⟨hr, [(id, s)], .full hid hnew hfull⟩
  · rintro ⟨rfl, asked, hc⟩
    cases hc with
    | unknown hid => simp only [resolve, hid]
    | @full target s args id hid hnew hfull =>
      simp only [resolve, hid, r'.register_of_full hnew hfull]

/-- An instruction that is resolved registers its call. -/
theorem numbered_of_resolve {i : SymbolicInstr} {j : Instruction} (h : resolve symbols function r i = (.ok j, r')) :
    ∃ entries, Numbered symbols [i] entries ∧ r' = r.registerAll entries := by
  rcases resolve_cases symbols function r i with
    ⟨o, x, y, z, rfl, hr⟩ | ⟨target, s, args, rfl, ⟨-, hr⟩ | ⟨id, hid, hr, -⟩⟩
  · rw [hr] at h
    cases h
    exact ⟨[], .nil, rfl⟩
  · rw [hr] at h
    cases h
  · rw [h] at hr
    exact ⟨[(id, s)], .cons ⟨hid, rfl⟩ .nil, hr⟩

/-- Resolving goes through an instruction and all behind it, or stops at it, or stops behind it. -/
theorem resolveAll_cons_cases (symbols : SymbolTable) (function : String) (r : Registry) (i : SymbolicInstr)
    (is : List SymbolicInstr) :
    (∃ f r', resolve symbols function r i = (.error f, r') ∧
      resolveAll symbols function r (i :: is) = (.error f, r')) ∨
    ∃ j r', resolve symbols function r i = (.ok j, r') ∧
      ((∃ f r'', resolveAll symbols function r' is = (.error f, r'') ∧
          resolveAll symbols function r (i :: is) = (.error f, r'')) ∨
        ∃ js r'', resolveAll symbols function r' is = (.ok js, r'') ∧
          resolveAll symbols function r (i :: is) = (.ok (j :: js), r'')) := by
  rw [resolveAll]
  rcases resolve symbols function r i with ⟨f | j, r'⟩
  · exact .inl ⟨f, r', rfl, rfl⟩
  · refine .inr ⟨j, r', rfl, ?_⟩
    simp only
    rcases resolveAll symbols function r' is with ⟨f | js, r''⟩
    · exact .inl ⟨f, r'', rfl, rfl⟩
    · exact .inr ⟨js, r'', rfl, rfl⟩

theorem Numbered.cons {i : SymbolicInstr} {is : List SymbolicInstr} {es es' : List (UInt8 × Signature)}
    (h : Numbered symbols [i] es) (h' : Numbered symbols is es') : Numbered symbols (i :: is) (es ++ es') := by
  have hcalls : callsOf (i :: is) = callsOf [i] ++ callsOf is := List.filterMap_append (l := [i])
  unfold Numbered
  rw [hcalls]
  exact List.rel_append h h'

/-- **Instructions that are resolved register their calls**, in order. -/
theorem numbered_of_resolveAll {is : List SymbolicInstr} {js : List Instruction}
    (h : resolveAll symbols function r is = (.ok js, r')) :
    ∃ entries, Numbered symbols is entries ∧ r' = r.registerAll entries := by
  induction is generalizing r js with
  | nil =>
    cases h
    exact ⟨[], .nil, rfl⟩
  | cons i is ih =>
    rcases resolveAll_cons_cases symbols function r i is with
      ⟨f, r₁, -, hall⟩ | ⟨j, r₁, hi, ⟨f, r₂, -, hall⟩ | ⟨js', r₂, his, hall⟩⟩ <;> rw [hall] at h
    · cases h
    · cases h
    · cases h
      obtain ⟨es, hn, rfl⟩ := numbered_of_resolve hi
      obtain ⟨es', hn', rfl⟩ := ih his
      exact ⟨es ++ es', hn.cons hn', (r.registerAll_append es es').symm⟩

/-- Behind instructions that are resolved, resolving goes on with the registry they left. -/
theorem resolveAll_append_of_ok {front : List SymbolicInstr} {js : List Instruction}
    (h : resolveAll symbols function r front = (.ok js, r')) (behind : List SymbolicInstr) :
    resolveAll symbols function r (front ++ behind) =
      ((resolveAll symbols function r' behind).1.map (js ++ ·), (resolveAll symbols function r' behind).2) := by
  induction front generalizing r js with
  | nil =>
    cases h
    rw [List.nil_append]
    rcases resolveAll symbols function r' behind with ⟨f | js, r''⟩ <;> rfl
  | cons i is ih =>
    rcases resolveAll_cons_cases symbols function r i is with
      ⟨f, r₁, -, hall⟩ | ⟨j, r₁, hi, ⟨f, r₂, -, hall⟩ | ⟨js', r₂, his, hall⟩⟩ <;> rw [hall] at h
    · cases h
    · cases h
    · cases h
      rw [List.cons_append, resolveAll_cons, hi]
      simp only
      rw [ih his]
      rcases resolveAll symbols function r' behind with ⟨f | js'', r''⟩ <;> rfl

/-- A call that is refused leaves the lists alone, also where its target's list is asked for. -/
theorem CallRefused.lists_eq {i : SymbolicInstr} {asked : List (UInt8 × Signature)} {f : Fault}
    (h : CallRefused symbols function r i asked f) : Registry.Lists.registerAll r.lists asked = r.lists := by
  rw [Registry.lists_registerAll]
  cases h with
  | unknown => rfl
  | @full target s args id hid hnew hfull =>
    show (r.register id s).2.lists = r.lists
    rw [r.register_of_full hnew hfull]

theorem HaltsAt.of_refused {front behind : List SymbolicInstr} {i : SymbolicInstr} {js : List Instruction} {f : Fault}
    (h : resolveAll symbols function r front = (.ok js, r')) {asked : List (UInt8 × Signature)}
    (hc : CallRefused symbols function r' i asked f) : HaltsAt symbols function r (front ++ i :: behind) f r' := by
  obtain ⟨entries, hn, hr⟩ := numbered_of_resolveAll h
  have hlists : r'.lists = Registry.Lists.registerAll r.lists (entries ++ asked) := by
    rw [← hc.lists_eq, hr, ← Registry.lists_registerAll]
    exact List.foldl_append.symm
  exact .intro rfl h hn hc hr hlists fun target => hlists ▸ Registry.lists_ne_some_nil r' target

/-- **Resolving fails exactly where it stops.** -/
theorem resolveAll_eq_error_iff {is : List SymbolicInstr} {f : Fault} :
    resolveAll symbols function r is = (.error f, r') ↔ HaltsAt symbols function r is f r' := by
  constructor
  · intro h
    -- over the instructions: the first of them is refused, or it is resolved and goes in front of those that are
    induction is generalizing r with
    | nil => cases h
    | cons i is ih =>
      rcases resolveAll_cons_cases symbols function r i is with
        ⟨f', r₁, hi, hall⟩ | ⟨j, r₁, hi, ⟨f', r₂, his, hall⟩ | ⟨js, r₂, -, hall⟩⟩ <;> rw [hall] at h
      · cases h
        obtain ⟨rfl, asked, hc⟩ := resolve_eq_error_iff.1 hi
        have hfront : resolveAll symbols function r' [] = (.ok [], r') := rfl
        exact .of_refused hfront hc
      · cases h
        obtain ⟨rfl, hfront, -, hc, -, -, -⟩ := ih his
        rename_i front behind i' js entries asked
        have hfront' : resolveAll symbols function r (i :: front) = (.ok (j :: js), r') := by
          rw [resolveAll_cons, hi]
          simp only
          rw [hfront]
          rfl
        exact .of_refused hfront' hc
      · cases h
  · rintro ⟨rfl, hfront, -, hc, -, -, -⟩
    rename_i front behind i js entries asked
    rw [resolveAll_append_of_ok hfront, resolveAll_cons, resolve_eq_error_iff.2 ⟨rfl, asked, hc⟩]
    rfl

namespace Assembler

/-- **The ways in which a listing fails.**  If it does not read, all that is new is a warning, or for an unknown mnemonic
nothing at all, and that is a fault.  If it reads, it has a fault exactly if its resolution stops at a call: then stream,
functions and warnings are as before, and the registry has what was registered in front of that call. -/
theorem addFunction_failure (symbols : SymbolTable) (a : Assembler) (name listing : String) :
    (∀ e, Listing.parse listing = .error e → (∀ mnemonic, e.kind ≠ .unknownOpcode mnemonic) →
      a.addFunction symbols name listing =
        (.ok (), { a with diagnostics := a.diagnostics ++ [e.toDiagnostic name listing] })) ∧
    (∀ mnemonic span, Listing.parse listing = .error ⟨.unknownOpcode mnemonic, span⟩ →
      a.addFunction symbols name listing = (.error (.unknownOpcode name mnemonic), a)) ∧
    ∀ is, Listing.parse listing = .ok is → ∀ f b, a.addFunction symbols name listing = (.error f, b) ↔
      HaltsAt symbols name a.registry is f b.registry ∧ b = { a with registry := b.registry } := by
  refine ⟨fun e hp hk => ?_, fun mnemonic span hp => ?_, fun is hp f b => ?_⟩
  · obtain ⟨kind, span⟩ := e
    have he : Listing.Error.escalate ⟨kind, span⟩ name = none := by
      cases kind with
      | unknownOpcode mnemonic => exact absurd rfl (hk mnemonic)
      | _ => rfl
    simp only [addFunction, hp, he, warn]
  · simp only [addFunction, hp, Listing.Error.escalate]
  · rw [← resolveAll_eq_error_iff]
    simp only [addFunction, hp]
    rcases hr : resolveAll symbols name a.registry is with ⟨f' | js, r⟩
    · constructor
      · intro h
        cases h
        exact ⟨rfl, rfl⟩
      · rintro ⟨h, hb⟩
        cases h
        rw [hb]
    · constructor
      · intro h
        cases h
      · rintro ⟨h, -⟩
        cases h

-- the call in front of one with an unknown target stays registered
example : empty.addFunction ⟨["_g"], by decide, by decide⟩ "_f"
      "[\"FUNC\", 1, 0, 0, \"CALL\", \"_g\", \"v\", 0, \"CALL\", \"_h\", \"vi\", 0]" =
    (.error (.unknownCallTarget "_f" "_h"), { empty with registry := ⟨[(0, ⟨none, []⟩)]⟩ }) := by
  decide +kernel

end Assembler
end Wordcode
