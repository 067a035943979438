import Wordcode.Program.Assembler
import Wordcode.Proofs.Assembly.Indices
import Wordcode.Proofs.Outcome
/-!
# Proofs.Assembly.Symbolic — what resolving did can be undone

A resolved instruction is read back by looking up its target's name and its signature (`symbolic?`).  Resolving gives
instructions that read back as what they were resolved from (`mapM_symbolic?_resolveAll`), and they still do in every
later registry (`mapM_symbolic?_of_extends`).
-/
namespace Wordcode

/-- **The instruction that a resolved one stands for**, by the names of a table and the signatures of a registry. -/
def Instruction.symbolic? (symbols : SymbolTable) (r : Registry) : Instruction → Option SymbolicInstr
  | .op o x y z => some (.op o x y z)
  | .call target index args =>
    match symbols.nameOf? target, r.signature? target index with
    | some name, some s => some (.call name s args)
    | _, _ => none

variable (symbols : SymbolTable) (function : String)

theorem symbolic?_call_eq_some_iff {r : Registry} {target index : UInt8} {args : List UInt8} {i : SymbolicInstr} :
    Instruction.symbolic? symbols r (.call target index args) = some i ↔
      ∃ name s, symbols.nameOf? target = some name ∧ r.signature? target index = some s ∧ i = .call name s args := by
  rw [Instruction.symbolic?]
  constructor
  · intro h
    split at h
    · rename_i name s hname hs
      cases h
      exact ⟨name, s, hname, hs, rfl⟩
    · cases h
  · rintro ⟨name, s, hname, hs, rfl⟩
    rw [hname, hs]

/-- A resolved instruction and the one it stands for differ in how a call names target and signature. -/
theorem symbolic?_cases {r : Registry} {j : Instruction} {i : SymbolicInstr} (h : j.symbolic? symbols r = some i) :
    (∃ o x y z, j = .op o x y z ∧ i = .op o x y z) ∨
    ∃ id index name s args, j = .call id index args ∧ i = .call name s args := by
  cases j with
  | op o x y z => cases h; exact .inl ⟨o, x, y, z, rfl, rfl⟩
  | call id index args =>
    obtain ⟨name, s, -, -, rfl⟩ := (symbolic?_call_eq_some_iff symbols).1 h
    exact .inr ⟨id, index, name, s, args, rfl, rfl⟩

theorem opcode_of_symbolic? {r : Registry} {j : Instruction} {i : SymbolicInstr}
    (h : j.symbolic? symbols r = some i) : j.opcode = i.opcode := by
  obtain ⟨o, x, y, z, rfl, rfl⟩ | ⟨id, index, name, s, args, rfl, rfl⟩ := symbolic?_cases symbols h <;> rfl

theorem encodedLen_of_symbolic? {r : Registry} {j : Instruction} {i : SymbolicInstr}
    (h : j.symbolic? symbols r = some i) : j.encodedLen = i.encodedLen := by
  obtain ⟨o, x, y, z, rfl, rfl⟩ | ⟨id, index, name, s, args, rfl, rfl⟩ := symbolic?_cases symbols h <;> rfl

theorem branchOffset?_of_symbolic? {r : Registry} {j : Instruction} {i : SymbolicInstr}
    (h : j.symbolic? symbols r = some i) : j.branchOffset? = i.branchOffset? := by
  obtain ⟨o, x, y, z, rfl, rfl⟩ | ⟨id, index, name, s, args, rfl, rfl⟩ := symbolic?_cases symbols h
  · cases o <;> rfl
  · rfl

theorem symbolic?_of_extends {r r' : Registry} (h : r.Extends r') {j : Instruction} {i : SymbolicInstr}
    (hj : j.symbolic? symbols r = some i) : j.symbolic? symbols r' = some i := by
  cases j with
  | op => exact hj
  | call target index args =>
    obtain ⟨name, s, hname, hs, rfl⟩ := (symbolic?_call_eq_some_iff symbols).1 hj
    exact (symbolic?_call_eq_some_iff symbols).2 ⟨name, s, hname, h.signature?_eq hs, rfl⟩

theorem mapM_symbolic?_of_extends {r r' : Registry} (h : r.Extends r') {js : List Instruction}
    {is : List SymbolicInstr} (hjs : js.mapM (Instruction.symbolic? symbols r) = some is) :
    js.mapM (Instruction.symbolic? symbols r') = some is := by
  induction js generalizing is with
  | nil => exact hjs
  | cons j js ih =>
    obtain ⟨i, is', hi, his, rfl⟩ := mapM_cons_eq_some_iff.1 hjs
    exact mapM_cons_eq_some_iff.2 ⟨i, is', symbolic?_of_extends symbols h hi, ih his, rfl⟩

/-- **What resolving one instruction can do**: carry it over, refuse it before the registry is asked, or go by what
registering answers. -/
theorem resolve_cases (r : Registry) (i : SymbolicInstr) :
    (∃ o x y z, i = .op o x y z ∧ resolve symbols function r i = (.ok (.op o x y z), r)) ∨
    ∃ target s args, i = .call target s args ∧
      ((symbols.idOf? target = none ∧
          resolve symbols function r i = (.error (.unknownCallTarget function target), r)) ∨
        ∃ id, symbols.idOf? target = some id ∧ (resolve symbols function r i).2 = (r.register id s).2 ∧
          (resolve symbols function r i).1 = match (r.register id s).1 with
            | some index => .ok (.call id index args)
            | none => .error (.signatureSpaceExhausted target)) := by
  cases i with
  | op o x y z => exact .inl ⟨o, x, y, z, rfl, rfl⟩
  | call target s args =>
    refine .inr ⟨target, s, args, rfl, ?_⟩
    simp only [resolve]
    cases hid : symbols.idOf? target with
    | none => exact .inl ⟨rfl, rfl⟩
    | some id =>
      refine .inr ⟨id, rfl, ?_⟩
      rcases hr : r.register id s with ⟨_ | index, r'⟩
      · simp only [hr, and_self]
      · simp only [hr, and_self]

theorem extends_resolve (r : Registry) (i : SymbolicInstr) : r.Extends (resolve symbols function r i).2 := by
  rcases resolve_cases symbols function r i with ⟨o, x, y, z, rfl, h⟩ | ⟨target, s, args, rfl, ⟨-, h⟩ | ⟨id, -, h, -⟩⟩
  · exact .refl r
  · rw [h]
    exact .refl r
  · rw [h]
    exact r.extends_register id s

theorem bounded_resolve {r : Registry} (hb : r.Bounded) (i : SymbolicInstr) :
    (resolve symbols function r i).2.Bounded := by
  rcases resolve_cases symbols function r i with ⟨o, x, y, z, rfl, h⟩ | ⟨target, s, args, rfl, ⟨-, h⟩ | ⟨id, -, h, -⟩⟩
  · exact hb
  · rw [h]
    exact hb
  · rw [h]
    exact Registry.bounded_register hb id s

theorem symbolic?_resolve {r : Registry} (hb : r.Bounded) {i : SymbolicInstr} {j : Instruction}
    (h : (resolve symbols function r i).1 = .ok j) :
    j.symbolic? symbols (resolve symbols function r i).2 = some i := by
  rcases resolve_cases symbols function r i with
    ⟨o, x, y, z, rfl, hr⟩ | ⟨target, s, args, rfl, ⟨-, hr⟩ | ⟨id, hid, hr, ho⟩⟩
  · cases h
    rfl
  · rw [hr] at h
    cases h
  · rw [ho] at h
    split at h
    · rename_i index hindex
      cases h
      rw [hr]
      exact (symbolic?_call_eq_some_iff symbols).2
        ⟨target, s, (symbols.idOf?_eq_some_iff target id).1 hid, Registry.signature?_register hb hindex, rfl⟩
    · cases h

/-- Resolving instructions goes on behind the first as resolving them does. -/
theorem resolveAll_cons (r : Registry) (i : SymbolicInstr) (is : List SymbolicInstr) :
    resolveAll symbols function r (i :: is) = match (resolve symbols function r i).1 with
      | .error f => (.error f, (resolve symbols function r i).2)
      | .ok j => ((resolveAll symbols function (resolve symbols function r i).2 is).1.map (j :: ·),
          (resolveAll symbols function (resolve symbols function r i).2 is).2) := by
  rw [resolveAll]
  rcases resolve symbols function r i with ⟨f | j, r'⟩
  · rfl
  · simp only
    rcases resolveAll symbols function r' is with ⟨f | js, r''⟩ <;> rfl

theorem extends_resolveAll (r : Registry) (is : List SymbolicInstr) :
    r.Extends (resolveAll symbols function r is).2 := by
  induction is generalizing r with
  | nil => exact .refl r
  | cons i is ih =>
    have hi := extends_resolve symbols function r i
    rw [resolveAll_cons]
    split
    · exact hi
    · exact hi.trans (ih _)

theorem bounded_resolveAll {r : Registry} (hb : r.Bounded) (is : List SymbolicInstr) :
    (resolveAll symbols function r is).2.Bounded := by
  induction is generalizing r with
  | nil => exact hb
  | cons i is ih =>
    have hi := bounded_resolve symbols function hb i
    rw [resolveAll_cons]
    split
    · exact hi
    · exact ih hi

/-- **Resolved instructions read back as what they were resolved from.** -/
theorem mapM_symbolic?_resolveAll {r r' : Registry} (hb : r.Bounded) {is : List SymbolicInstr}
    {js : List Instruction} (h : resolveAll symbols function r is = (.ok js, r')) :
    js.mapM (Instruction.symbolic? symbols r') = some is := by
  induction is generalizing r js with
  | nil => cases h; rfl
  | cons i is ih =>
    rw [resolveAll_cons] at h
    split at h
    · cases h
    rename_i j hj
    have hext := extends_resolveAll symbols function (resolve symbols function r i).2 is
    rcases hall : resolveAll symbols function (resolve symbols function r i).2 is with ⟨f | js', r''⟩
    · rw [hall] at h
      cases h
    · rw [hall] at h hext
      cases h
      have hhead := symbolic?_of_extends symbols hext (symbolic?_resolve symbols function hb hj)
      exact mapM_cons_eq_some_iff.2 ⟨i, is, hhead, ih (bounded_resolve symbols function hb i) hall, rfl⟩

end Wordcode
