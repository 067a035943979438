import Wordcode.Proofs.Assembly.Tiling
/-!
# Proofs.Assembly.Skipping — a listing that is skipped leaves a warning and nothing else

Adding a listing reads the program so far and not the warnings, and a listing that is skipped leaves the program as it
is.  So a run over listings and a run over those of them that are not skipped give the same results for these and end
with the same program (`addEach_filter_skipped`): nothing of a skipped listing, not even of its first calls, is seen by
a later one.
-/
namespace Wordcode

variable {symbols : SymbolTable}

namespace Listing

/-- The listing does not read, for another cause than a mnemonic outside the instruction set. -/
def Skipped (listing : String) : Prop :=
  ∃ e, parse listing = .error e ∧ ∀ mnemonic, e.kind ≠ .unknownOpcode mnemonic

theorem Error.escalate_eq_none_iff {e : Error} {function : String} :
    e.escalate function = none ↔ ∀ mnemonic, e.kind ≠ .unknownOpcode mnemonic := by
  unfold escalate
  cases e.kind <;> simp

instance (listing : String) : Decidable (Skipped listing) :=
  match h : parse listing with
  | .ok _ => isFalse fun ⟨_, he, _⟩ => by cases h.symm.trans he
  | .error e =>
    if he : e.escalate "" = none then isTrue ⟨e, h, Error.escalate_eq_none_iff.1 he⟩
    else isFalse fun ⟨_, he', hk⟩ => by
      cases h.symm.trans he'
      exact he (Error.escalate_eq_none_iff.2 hk)

end Listing

open Listing (Skipped)

/-- The diagnostic says why the listing does not read. -/
def WarnsOf (pair : String × String) (d : Diagnostic) : Prop :=
  ∃ e, Listing.parse pair.2 = .error e ∧ d = e.toDiagnostic pair.1 pair.2

namespace Assembler

/-- Each listing with what comes of it, added behind those in front of it. -/
def outcomes (symbols : SymbolTable) (a : Assembler) :
    List (String × String) → List ((String × String) × Except Fault Unit)
  | [] => []
  | pair :: more =>
    (pair, (a.addFunction symbols pair.1 pair.2).1) ::
      outcomes symbols (a.addFunction symbols pair.1 pair.2).2 more

theorem map_fst_outcomes : ∀ (pairs : List (String × String)) (a : Assembler),
    (a.outcomes symbols pairs).map Prod.fst = pairs
  | [], _ => rfl
  | pair :: more, _ => by rw [outcomes, List.map_cons, map_fst_outcomes more]

/-- **Adding a listing does not read the warnings.** -/
theorem addFunction_congr (symbols : SymbolTable) {a b : Assembler} (h : a.program = b.program)
    (name listing : String) :
    (a.addFunction symbols name listing).1 = (b.addFunction symbols name listing).1 ∧
      (a.addFunction symbols name listing).2.program = (b.addFunction symbols name listing).2.program := by
  obtain ⟨r, code, functions, warnings⟩ := a
  obtain ⟨r', code', functions', warnings'⟩ := b
  cases h
  unfold addFunction
  cases Listing.parse listing with
  | error e =>
    simp only
    cases e.escalate name <;> exact ⟨rfl, rfl⟩
  | ok is =>
    simp only
    rcases resolveAll symbols name r is with ⟨f | js, r'⟩ <;> exact ⟨rfl, rfl⟩

theorem addFunction_of_skipped (symbols : SymbolTable) (a : Assembler) (name : String) {listing : String}
    (h : Skipped listing) :
    ∃ e, Listing.parse listing = .error e ∧
      a.addFunction symbols name listing = (.ok (), a.warn (e.toDiagnostic name listing)) := by
  obtain ⟨e, hp, hk⟩ := h
  refine ⟨e, hp, ?_⟩
  simp only [addFunction, hp, Listing.Error.escalate_eq_none_iff.2 hk]

/-- Only a listing that is skipped is warned of. -/
theorem diagnostics_addFunction (a : Assembler) (name : String) {listing : String} (h : ¬ Skipped listing) :
    (a.addFunction symbols name listing).2.diagnostics = a.diagnostics := by
  have hadd := added symbols a name listing
  generalize a.addFunction symbols name listing = out at hadd ⊢
  cases hadd with
  | @skipped e hp he => exact absurd ⟨e, hp, Listing.Error.escalate_eq_none_iff.1 he⟩ h
  | refused | failed | appended => rfl

theorem outcomes_filter (symbols : SymbolTable) : ∀ (pairs : List (String × String)) {a b : Assembler},
    a.program = b.program → (a.outcomes symbols pairs).filter (fun x => ¬ Skipped x.1.2) =
        b.outcomes symbols (pairs.filter fun pair => ¬ Skipped pair.2) ∧
      (a.addEach symbols pairs).program =
        (b.addEach symbols (pairs.filter fun pair => ¬ Skipped pair.2)).program
  | [], _, _, h => ⟨rfl, h⟩
  | pair :: more, a, b, h => by
    by_cases hs : Skipped pair.2
    · -- the listing leaves the program of the first run, and the second run has no such listing
      obtain ⟨e, -, ha⟩ := addFunction_of_skipped symbols a pair.1 hs
      have hprogram : (a.addFunction symbols pair.1 pair.2).2.program = b.program := by rw [ha]; exact h
      have ih := outcomes_filter symbols more hprogram
      rw [outcomes, List.filter_cons_of_neg (by simpa using hs), List.filter_cons_of_neg (by simpa using hs),
        addEach_cons]
      exact ih
    · obtain ⟨hresult, hprogram⟩ := addFunction_congr symbols h pair.1 pair.2
      have ih := outcomes_filter symbols more hprogram
      rw [outcomes, List.filter_cons_of_pos (by simpa using hs), List.filter_cons_of_pos (by simpa using hs),
        addEach_cons, addEach_cons, outcomes, ih.1, hresult]
      exact ⟨rfl, ih.2⟩

theorem diagnostics_addEach (symbols : SymbolTable) : ∀ (pairs : List (String × String)) (a : Assembler),
    ∃ ds, (a.addEach symbols pairs).diagnostics = a.diagnostics ++ ds ∧
      List.Forall₂ WarnsOf (pairs.filter fun pair => Skipped pair.2) ds
  | [], a => ⟨[], (List.append_nil _).symm, .nil⟩
  | pair :: more, a => by
    obtain ⟨ds, hds, hwarns⟩ := diagnostics_addEach symbols more (a.addFunction symbols pair.1 pair.2).2
    rw [addEach_cons, hds]
    by_cases hs : Skipped pair.2
    · obtain ⟨e, hp, ha⟩ := addFunction_of_skipped symbols a pair.1 hs
      refine ⟨e.toDiagnostic pair.1 pair.2 :: ds, by rw [ha, warn, List.append_assoc]; rfl, ?_⟩
      rw [List.filter_cons_of_pos (by simpa using hs)]
      exact .cons ⟨e, hp, rfl⟩ hwarns
    · refine ⟨ds, by rw [diagnostics_addFunction a pair.1 hs], ?_⟩
      rwa [List.filter_cons_of_neg (by simpa using hs)]

/-- **Listings that are skipped do not influence the others.**  A run over listings gives each one that is not skipped
the result that a run without the skipped ones gives it, and ends with the same program; its warnings are those of the
skipped listings, one for each and in order, and the other run has none. -/
theorem addEach_filter_skipped (symbols : SymbolTable) (pairs : List (String × String)) :
    let kept := pairs.filter fun pair => ¬ Skipped pair.2
    (empty.outcomes symbols pairs).map Prod.fst = pairs ∧
      (empty.outcomes symbols pairs).filter (fun x => ¬ Skipped x.1.2) = empty.outcomes symbols kept ∧
      (empty.addEach symbols pairs).program = (empty.addEach symbols kept).program ∧
      List.Forall₂ WarnsOf (pairs.filter fun pair => Skipped pair.2) (empty.addEach symbols pairs).diagnostics ∧
      (empty.addEach symbols kept).diagnostics = [] := by
  intro kept
  obtain ⟨hresults, hprogram⟩ := outcomes_filter symbols pairs (rfl : empty.program = empty.program)
  obtain ⟨ds, hds, hwarns⟩ := diagnostics_addEach symbols pairs empty
  obtain ⟨ds', hds', hwarns'⟩ := diagnostics_addEach symbols kept empty
  have hnone : (kept.filter fun pair => Skipped pair.2) = [] := by
    refine List.filter_eq_nil_iff.2 fun pair hpair => ?_
    simpa using (List.mem_filter.1 hpair).2
  rw [hnone] at hwarns'
  cases hwarns'
  refine ⟨map_fst_outcomes pairs empty, hresults, hprogram, ?_, hds'⟩
  rwa [hds]

end Assembler
end Wordcode
