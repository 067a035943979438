import Wordcode.Proofs.Assembly.Run
/-!
# Proofs.Assembly.Accounts — each listing makes a function or a warning

A run without faults leaves something of every listing: one function, if it reads, or one warning that says why it does
not, both in the order of the listings (`accounts_addAll`).
-/
namespace Wordcode

variable {symbols : SymbolTable}

/-- The codes of the warnings about listings. -/
def skippedCodes : List String := ["W101", "W102", "W103", "W104", "W105", "W106", "W107", "W108", "W109"]

/-- **Each listing makes one function, its own, or one warning, its own**: the listings with the names of their
functions, the functions, and the warnings. -/
inductive Accounts (symbols : SymbolTable) (r : Registry) :
    List (String × String) → List AssembledFunction → List Diagnostic → Prop
  | nil : Accounts symbols r [] [] []
  | entry {name listing : String} {is : List SymbolicInstr} {f : AssembledFunction} {pairs : List (String × String)}
      {fs : List AssembledFunction} {ds : List Diagnostic} (hp : Listing.parse listing = .ok is)
      (hf : f.ReadsAs symbols r (name, is)) (more : Accounts symbols r pairs fs ds) :
      Accounts symbols r ((name, listing) :: pairs) (f :: fs) ds
  | skipped {name listing : String} {e : Listing.Error} {pairs : List (String × String)}
      {fs : List AssembledFunction} {ds : List Diagnostic} (hp : Listing.parse listing = .error e)
      (he : e.kind.code ∈ skippedCodes) (more : Accounts symbols r pairs fs ds) :
      Accounts symbols r ((name, listing) :: pairs) fs (e.toDiagnostic name listing :: ds)

/-- What a warning about a listing says of itself. -/
theorem Accounts.warnings {r : Registry} {pairs : List (String × String)} {fs : List AssembledFunction}
    {ds : List Diagnostic} (h : Accounts symbols r pairs fs ds) :
    ∀ d ∈ ds, d.severity = .warning ∧ ∃ code ∈ skippedCodes, d.code = some code := by
  induction h with
  | nil => intro d hd; cases hd
  | entry hp hf more ih => exact ih
  | skipped hp he more ih =>
    intro d hd
    rcases List.mem_cons.1 hd with rfl | hd
    · exact ⟨rfl, _, he, rfl⟩
    · exact ih d hd

/-- **Only an error that is no fault becomes a warning**, so its code is a warning's. -/
theorem code_mem_skippedCodes {e : Listing.Error} {name : String} (h : e.escalate name = none) :
    e.kind.code ∈ skippedCodes := by
  obtain ⟨kind, span⟩ := e
  cases kind with
  | unknownOpcode mnemonic => cases h
  | _ => simp [Listing.ErrorKind.code, skippedCodes]

namespace Assembler

theorem extends_addFunction (a : Assembler) (name listing : String) :
    a.registry.Extends (a.addFunction symbols name listing).2.registry := by
  have hadd := added symbols a name listing
  generalize a.addFunction symbols name listing = out at hadd ⊢
  cases hadd with
  | skipped => exact .refl _
  | refused => exact .refl _
  | @failed is f r hp hr =>
    have hext := extends_resolveAll symbols name a.registry is
    rwa [hr] at hext
  | @appended is js r hp hr =>
    have hext := extends_resolveAll symbols name a.registry is
    rwa [hr] at hext

theorem extends_addAll {a b : Assembler} {pairs : List (String × String)} (h : addAll symbols a pairs = .ok b) :
    a.registry.Extends b.registry := by
  induction pairs generalizing a with
  | nil => cases h; exact .refl _
  | cons p more ih =>
    obtain ⟨a', ha, h⟩ := (addAll_cons_eq_ok_iff symbols a b p.1 p.2 more).1 h
    have hext := @extends_addFunction symbols a p.1 p.2
    rw [ha] at hext
    exact hext.trans (ih h)

/-- **A run without faults accounts for every listing**, with the registry at its end. -/
theorem accounts_addAll {a b : Assembler} (hs : a.Sound symbols) {pairs : List (String × String)}
    (h : addAll symbols a pairs = .ok b) :
    ∃ fs ds, b.functions = a.functions ++ fs ∧ b.diagnostics = a.diagnostics ++ ds ∧
      Accounts symbols b.registry pairs fs ds := by
  induction pairs generalizing a with
  | nil =>
    cases h
    exact ⟨[], [], (List.append_nil _).symm, (List.append_nil _).symm, .nil⟩
  | cons p more ih =>
    obtain ⟨name, listing⟩ := p
    obtain ⟨a', ha, h⟩ := (addAll_cons_eq_ok_iff symbols a b name listing more).1 h
    have hs' := hs.addFunction name listing
    have hadd := added symbols a name listing
    rw [ha] at hs' hadd
    obtain ⟨fs, ds, hfs, hds, hmore⟩ := ih hs' h
    cases hadd with
    | @skipped e hp he =>
      refine ⟨fs, e.toDiagnostic name listing :: ds, hfs, ?_, .skipped hp (code_mem_skippedCodes he) hmore⟩
      rw [hds, warn, List.append_assoc]
      rfl
    | @appended is js r hp hr =>
      have hreads : (AssembledFunction.place name a.bytecode.length js).ReadsAs symbols r (name, is) :=
        ⟨rfl, mapM_symbolic?_resolveAll symbols name hs.bounded hr⟩
      refine ⟨.place name a.bytecode.length js :: fs, ds, ?_, hds, .entry hp (hreads.mono (extends_addAll h)) hmore⟩
      rw [hfs, append, List.append_assoc]
      rfl

end Assembler
end Wordcode
