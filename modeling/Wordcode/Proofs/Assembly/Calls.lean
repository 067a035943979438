import Mathlib.Data.Finset.Card
import Wordcode.Proofs.Assembly.Symbolic
/-!
# Proofs.Assembly.Calls — which calls can be resolved

Whether calls can be resolved is said by two counts that no order matters for: every target is known, and no target is
called with more signatures than one byte can tell apart (`Callable`).  A registry that has logged the calls made so far
(`Registry.Logs`) takes the next one exactly if the count with it still fits (`Registry.Logs.register`), so a run over
instructions resolves them all, or stops at the first call that the counts refuse (`resolveAll_outcome`).
-/
namespace Wordcode

def SymbolTable.targets (t : SymbolTable) : Finset String := t.names.toFinset

theorem SymbolTable.mem_targets_iff {t : SymbolTable} {name : String} :
    name ∈ t.targets ↔ ∃ id, t.idOf? name = some id := by
  rw [targets, List.mem_toFinset]
  constructor
  · intro h
    obtain ⟨i, hi⟩ := Option.isSome_iff_exists.1 (List.isSome_idxOf?.2 h)
    exact ⟨i.toUInt8, by rw [idOf?, hi, Option.map_some]⟩
  · rintro ⟨id, h⟩
    exact List.mem_of_getElem? ((t.idOf?_eq_some_iff name id).1 h)

/-- The calls among instructions: the target's name and the signature of each. -/
def callsOf (is : List SymbolicInstr) : List (String × Signature) :=
  is.filterMap fun
    | .op .. => none
    | .call target s _ => some (target, s)

/-- The signatures that a target is called with. -/
def signaturesOf (calls : List (String × Signature)) (target : String) : Finset Signature :=
  ((calls.filter fun call => call.1 == target).map Prod.snd).toFinset

/-- **Calls that can be resolved**: every target is known, and each is called with at most 256 signatures. -/
structure Callable (targets : Finset String) (calls : List (String × Signature)) : Prop where
  known : ∀ call ∈ calls, call.1 ∈ targets
  room : ∀ target, (signaturesOf calls target).card ≤ 256

/-- **What goes wrong at a call behind other calls.**  The target is looked up before its signatures are counted. -/
inductive CallFault (targets : Finset String) (function : String) (calls : List (String × Signature)) :
    String × Signature → Fault → Prop
  | unknown {target : String} {s : Signature} (ht : target ∉ targets) :
      CallFault targets function calls (target, s) (.unknownCallTarget function target)
  | exhausted {target : String} {s : Signature} (ht : target ∈ targets)
      (hs : 256 < (signaturesOf (calls ++ [(target, s)]) target).card) :
      CallFault targets function calls (target, s) (.signatureSpaceExhausted target)

variable {targets : Finset String} {function : String} {calls : List (String × Signature)}

theorem mem_signaturesOf {target : String} {s : Signature} : s ∈ signaturesOf calls target ↔ (target, s) ∈ calls := by
  simp [signaturesOf]

theorem signaturesOf_subset {calls' : List (String × Signature)} (h : calls ⊆ calls') (target : String) :
    signaturesOf calls target ⊆ signaturesOf calls' target := fun _ hs =>
  mem_signaturesOf.2 (h (mem_signaturesOf.1 hs))

theorem signaturesOf_append_self (target : String) (s : Signature) :
    signaturesOf (calls ++ [(target, s)]) target = insert s (signaturesOf calls target) := by
  ext s'
  simp [mem_signaturesOf, or_comm]

theorem signaturesOf_append_of_ne {target other : String} (s : Signature) (h : other ≠ target) :
    signaturesOf (calls ++ [(target, s)]) other = signaturesOf calls other := by
  ext s'
  simp [mem_signaturesOf, h]

namespace Callable

theorem nil : Callable targets [] where
  known := fun _ hcall => by cases hcall
  room := fun _ => Nat.zero_le _

theorem of_subset {calls' : List (String × Signature)} (h : Callable targets calls') (hs : calls ⊆ calls') :
    Callable targets calls where
  known := fun call hcall => h.known call (hs hcall)
  room := fun target => (Finset.card_le_card (signaturesOf_subset hs target)).trans (h.room target)

theorem snoc (h : Callable targets calls) {target : String} {s : Signature} (ht : target ∈ targets)
    (hs : (signaturesOf (calls ++ [(target, s)]) target).card ≤ 256) : Callable targets (calls ++ [(target, s)]) where
  known := by
    intro call hcall
    rcases List.mem_append.1 hcall with hcall | hcall
    · exact h.known call hcall
    · rw [List.mem_singleton.1 hcall]
      exact ht
  room := by
    intro other
    by_cases ho : other = target
    · rw [ho]
      exact hs
    · rw [signaturesOf_append_of_ne s ho]
      exact h.room other

end Callable

theorem CallFault.not_callable {call : String × Signature} {behind : List (String × Signature)} {f : Fault}
    (h : CallFault targets function calls call f) : ¬ Callable targets (calls ++ call :: behind) := by
  intro hc
  cases h with
  | unknown ht => exact ht (hc.known _ (List.mem_append_right _ List.mem_cons_self))
  | @exhausted target s ht hs =>
    have hfront : calls ++ [(target, s)] ⊆ calls ++ (target, s) :: behind := by simp
    have hroom := (hc.of_subset hfront).room target
    omega

theorem CallFault.unique {call : String × Signature} {f f' : Fault} (h : CallFault targets function calls call f)
    (h' : CallFault targets function calls call f') : f = f' := by
  cases h <;> cases h' <;> first | rfl | contradiction

variable {symbols : SymbolTable} {r : Registry}

namespace Registry

/-- **The registry has logged the calls**: under the id of each name it has the signatures that the name is called
with, each once. -/
def Logs (symbols : SymbolTable) (calls : List (String × Signature)) (r : Registry) : Prop :=
  ∀ target id, symbols.idOf? target = some id →
    (r.signatures id).Nodup ∧ ∀ s, s ∈ r.signatures id ↔ (target, s) ∈ calls

theorem logs_empty : empty.Logs symbols [] := fun _ _ _ => ⟨List.nodup_nil, fun _ => by simp [signatures, empty]⟩

theorem Logs.card_eq (h : r.Logs symbols calls) {target : String} {id : UInt8} (hid : symbols.idOf? target = some id) :
    (signaturesOf calls target).card = (r.signatures id).length := by
  obtain ⟨hnodup, hmem⟩ := h target id hid
  have heq : signaturesOf calls target = (r.signatures id).toFinset := by
    ext s
    rw [mem_signaturesOf, List.mem_toFinset, hmem]
  rw [heq, List.toFinset_card_of_nodup hnodup]

/-- **One more call of a known target** is logged exactly if the signatures that the target is then called with still
have an index each. -/
theorem Logs.register (h : r.Logs symbols calls) (hb : r.Bounded) {target : String} {id : UInt8}
    (hid : symbols.idOf? target = some id) (s : Signature) :
    ((signaturesOf (calls ++ [(target, s)]) target).card ≤ 256 ∧ (∃ index, (r.register id s).1 = some index) ∧
      (r.register id s).2.Logs symbols (calls ++ [(target, s)])) ∨
    (256 < (signaturesOf (calls ++ [(target, s)]) target).card ∧ (r.register id s).1 = none) := by
  have hcard := h.card_eq hid
  obtain ⟨hnodup, hmem⟩ := h target id hid
  have hcap : capacity = 256 := rfl
  have hlen := hb id
  rw [signaturesOf_append_self]
  rcases register_cases r id s with ⟨k, hk, hr⟩ | ⟨hnew, hlt, hr⟩ | ⟨hnew, hfull, hr⟩ <;> rw [hr]
  · -- known: the call has been made before, so neither the count nor the registry changes
    have hold : (target, s) ∈ calls := (hmem s).1 (List.mem_of_getElem? hk)
    refine .inl ⟨?_, ⟨_, rfl⟩, fun other id' hid' => ⟨(h other id' hid').1, fun s' => ?_⟩⟩
    · rw [Finset.insert_eq_of_mem (mem_signaturesOf.2 hold)]
      omega
    · rw [(h other id' hid').2, List.mem_append, List.mem_singleton]
      refine ⟨.inl, ?_⟩
      rintro (hs | hs)
      · exact hs
      · rw [hs]
        exact hold
  · -- new, and an index is left for it
    have hout : s ∉ signaturesOf calls target := fun hs => hnew ((hmem s).2 (mem_signaturesOf.1 hs))
    refine .inl ⟨?_, ⟨_, rfl⟩, fun other id' hid' => ?_⟩
    · rw [Finset.card_insert_of_notMem hout]
      omega
    · by_cases hi : id' = id
      · have ho : other = target := by
          have hname := (symbols.idOf?_eq_some_iff other id').1 hid'
          rw [hi, (symbols.idOf?_eq_some_iff target id).1 hid] at hname
          exact (Option.some.inj hname).symm
        subst hi ho
        rw [signatures_push_self]
        refine ⟨List.nodup_append.2 ⟨hnodup, List.nodup_singleton s, ?_⟩, fun s' => ?_⟩
        · intro s₁ h₁ s₂ h₂ heq
          rw [heq, List.mem_singleton.1 h₂] at h₁
          exact hnew h₁
        · simp [hmem]
      · have ho : other ≠ target := fun ho => hi (by rw [ho, hid] at hid'; exact (Option.some.inj hid').symm)
        rw [signatures_push_of_ne r s hi]
        refine ⟨(h other id' hid').1, fun s' => ?_⟩
        rw [(h other id' hid').2]
        simp [ho]
  · -- new, and all indices are in use: the count with it is one too many
    have hout : s ∉ signaturesOf calls target := fun hs => hnew ((hmem s).2 (mem_signaturesOf.1 hs))
    refine .inr ⟨?_, rfl⟩
    rw [Finset.card_insert_of_notMem hout]
    omega

end Registry

/-- **One more instruction** is resolved, and its call logged, if the counts allow; else its call goes wrong. -/
theorem resolve_outcome (function : String) (hc : Callable symbols.targets calls) (hl : r.Logs symbols calls)
    (hb : r.Bounded) (i : SymbolicInstr) :
    (∃ j, (resolve symbols function r i).1 = .ok j ∧ Callable symbols.targets (calls ++ callsOf [i]) ∧
      (resolve symbols function r i).2.Logs symbols (calls ++ callsOf [i])) ∨
    ∃ call f, callsOf [i] = [call] ∧ (resolve symbols function r i).1 = .error f ∧
      CallFault symbols.targets function calls call f := by
  rcases resolve_cases symbols function r i with
    ⟨o, x, y, z, rfl, hr⟩ | ⟨target, s, args, rfl, ⟨hid, hr⟩ | ⟨id, hid, hr, ho⟩⟩
  · refine .inl ⟨.op o x y z, by rw [hr], ?_⟩
    rw [hr, show callsOf [.op o x y z] = [] from rfl, List.append_nil]
    exact ⟨hc, hl⟩
  · refine .inr ⟨(target, s), .unknownCallTarget function target, rfl, by rw [hr], .unknown fun ht => ?_⟩
    obtain ⟨id, hsome⟩ := SymbolTable.mem_targets_iff.1 ht
    rw [hid] at hsome
    cases hsome
  · have ht : target ∈ symbols.targets := SymbolTable.mem_targets_iff.2 ⟨id, hid⟩
    rcases hl.register hb hid s with ⟨hcard, ⟨index, hindex⟩, hlogs⟩ | ⟨hcard, hnone⟩
    · refine .inl ⟨.call id index args, by rw [ho, hindex], hc.snoc ht hcard, ?_⟩
      rw [hr]
      exact hlogs
    · exact .inr ⟨(target, s), .signatureSpaceExhausted target, rfl, by rw [ho, hnone], .exhausted ht hcard⟩

/-- **A run over instructions** resolves and logs them all, or stops at the first call that goes wrong. -/
theorem resolveAll_outcome (function : String) (hc : Callable symbols.targets calls) (hl : r.Logs symbols calls)
    (hb : r.Bounded) (is : List SymbolicInstr) :
    (∃ js, (resolveAll symbols function r is).1 = .ok js ∧ Callable symbols.targets (calls ++ callsOf is) ∧
      (resolveAll symbols function r is).2.Logs symbols (calls ++ callsOf is)) ∨
    ∃ f, (resolveAll symbols function r is).1 = .error f ∧
      First (Callable symbols.targets) (CallFault symbols.targets function) (calls ++ callsOf is) f := by
  -- over the instructions, with the calls resolved so far: they are callable, so the first fault is still to come
  induction is generalizing r calls with
  | nil =>
    rw [show callsOf [] = [] from rfl, List.append_nil]
    exact .inl ⟨[], rfl, hc, hl⟩
  | cons i is ih =>
    have hcalls : callsOf (i :: is) = callsOf [i] ++ callsOf is := List.filterMap_append (l := [i])
    rw [resolveAll_cons, hcalls, ← List.append_assoc]
    rcases resolve_outcome function hc hl hb i with ⟨j, hj, hc', hl'⟩ | ⟨call, f, hcall, hf, hfault⟩
    · rw [hj]
      rcases ih hc' hl' (bounded_resolve symbols function hb i) with ⟨js, hjs, hdone⟩ | ⟨f, hf, hfirst⟩
      · exact .inl ⟨j :: js, by rw [hjs]; rfl, hdone⟩
      · exact .inr ⟨f, by rw [hf]; rfl, hfirst⟩
    · refine .inr ⟨f, by rw [hf], ?_⟩
      rw [hcall, List.append_assoc]
      exact .intro rfl hc hfault

end Wordcode
