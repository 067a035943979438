import Wordcode.Proofs.Assembly.Accounts
import Wordcode.Proofs.Host.Holes
import Wordcode.Proofs.Transform
/-!
# Proofs.Warnings — nothing is left out silently

An accepted transform says of everything that it did not move why it did not: of each listing that does not read, then
of each placeholder that no bytecode is behind, each once, in the order of the module, and of nothing else
(`accounted_of_transform`).
-/
namespace Wordcode

variable {o : Options}

namespace Trampoline

theorem address?_eq_none_iff {p : Program} {codeStart : UInt32} {name : String} :
    address? p codeStart name = none ↔ ∀ f ∈ p.functions, f.name ≠ name := by
  rw [address?, Program.offsetOf?, Option.map_eq_none_iff, Option.map_eq_none_iff, Program.function?,
    List.find?_eq_none]
  simp

theorem exists_address?_iff {p : Program} {codeStart : UInt32} {name : String} :
    (∃ address, address? p codeStart name = some address) ↔ ∃ f ∈ p.functions, f.name = name := by
  rw [← Option.isSome_iff_exists, ← Option.ne_none_iff_isSome, Ne, address?_eq_none_iff]
  simp

end Trampoline

namespace Placeholder

/-- **A placeholder without an address stays**, and both sides of it are filled as lines of their own. -/
theorem fillLine_of_split_of_none {address? : String → Option UInt32} {line before name behind : String}
    (h : Split line before name behind) (ha : address? name = none) :
    fillLine address? line = fillLine address? before ++ "(" ++ mark ++ name ++ ")" ++ fillLine address? behind := by
  have hchars : String.ofList (chars name) = "(" ++ mark ++ name ++ ")" := by
    apply String.toList_inj.1
    simp [chars, opening]
  rw [fillLine, h.toList_eq, pieces_append_chars h.isName, List.flatMap_append, List.flatMap_cons,
    fill_hole_of_none ha, String.ofList_append, String.ofList_append, hchars, fillLine, fillLine]
  simp only [String.append_assoc]

end Placeholder

namespace HostModule

/-- **All that a transform left out, and said so**: what it skipped among the listings, and what it reported of the
placeholders of the module. -/
structure Accounted (m : HostModule) (a : Artifacts) (skipped reported : List Diagnostic) (holes : List Hole) :
    Prop where
  /-- Each listing made one function or one warning. -/
  listings : Accounts a.symbols a.program.registry m.listings a.program.functions skipped
  /-- The holes are all placeholders of the module. -/
  mem_holes_iff : ∀ h, h ∈ holes ↔ m.HasHole h
  /-- The holes are in the order of the module, each there once. -/
  ordered : holes.Pairwise Hole.Before
  /-- Each placeholder that names no function of the program made one warning. -/
  placeholders : List.Forall₂ m.Reports
    (holes.filter fun h => decide (∀ f ∈ a.program.functions, f.name ≠ h.name)) reported
  diagnostics_eq : a.diagnostics = skipped ++ reported
  severity_eq : ∀ d ∈ a.diagnostics, d.severity = .warning
  skipped_code : ∀ d ∈ skipped, ∃ code ∈ skippedCodes, d.code = some code
  reported_code : ∀ d ∈ reported, d.code = some "W201"
  /-- A mnemonic outside the instruction set is never only a warning. -/
  code_ne : ∀ d ∈ a.diagnostics, d.code ≠ some "E003"

/-- **A placeholder is filled exactly if its name is a function's of the program**; else it stands as it was. -/
structure Filled (m host : HostModule) (a : Artifacts) : Prop where
  text_eq : a.moduleText = host.render a.bindings.imports (a.interpreters.flatMap Interpreter.Routine.lines)
  patched : ∀ {i j : Nat} {line before name behind : String}, m.bodyLine? i j = some line →
    Placeholder.Split line before name behind → (∃ f ∈ a.program.functions, f.name = name) →
      ∃ address : UInt32, Trampoline.address? a.program a.layout.codeStart name = some address ∧
        host.bodyLine? i j = some
          (Placeholder.fillLine (Trampoline.address? a.program a.layout.codeStart) before ++
            "(" ++ toString address.toNat ++ ")" ++
            Placeholder.fillLine (Trampoline.address? a.program a.layout.codeStart) behind)
  verbatim : ∀ {i j : Nat} {line before name behind : String}, m.bodyLine? i j = some line →
    Placeholder.Split line before name behind → (∀ f ∈ a.program.functions, f.name ≠ name) →
      host.bodyLine? i j = some
        (Placeholder.fillLine (Trampoline.address? a.program a.layout.codeStart) before ++
          "(EMTERPRETER_" ++ name ++ ")" ++
          Placeholder.fillLine (Trampoline.address? a.program a.layout.codeStart) behind)

variable {m : HostModule} {memory : Option StaticMemory} {a : Artifacts}

theorem filled_of_transform (h : m.transform memory o = .ok a) :
    m.Filled (m.patch a.program a.layout.codeStart).host a := by
  obtain ⟨given, symbols, run, image, -, -, -, -, rfl⟩ := transform_eq_ok_iff.1 h
  refine ⟨rfl, fun hline hsplit hf => ?_, fun hline hsplit hf => ?_⟩
  · obtain ⟨address, haddress⟩ := Trampoline.exists_address?_iff.2 hf
    exact ⟨address, haddress, by
      rw [bodyLine?_patch, hline, Option.map_some, Placeholder.fillLine_of_split hsplit haddress]⟩
  · rw [bodyLine?_patch, hline, Option.map_some,
      Placeholder.fillLine_of_split_of_none hsplit (Trampoline.address?_eq_none_iff.2 hf)]
    simp only [Placeholder.mark, String.append_assoc]
    rfl

/-- What a warning about a placeholder says of itself. -/
theorem Reports.warning {hole : Hole} {d : Diagnostic} (h : m.Reports hole d) :
    d.severity = .warning ∧ d.code = some "W201" := by
  obtain ⟨first, f, text, -, -, rfl⟩ := h
  exact ⟨rfl, rfl⟩

theorem Reports.of_mem {holes : List Hole} {ds : List Diagnostic} (h : List.Forall₂ m.Reports holes ds)
    {d : Diagnostic} (hd : d ∈ ds) : ∃ hole, m.Reports hole d := by
  induction h with
  | nil => cases hd
  | cons hone _ ih =>
    rcases List.mem_cons.1 hd with rfl | hd
    · exact ⟨_, hone⟩
    · exact ih hd

/-- **Nothing is left out silently.**  The diagnostics of an accepted transform are a warning for each listing that does
not read and then one for each placeholder that names no function of the program, in the order of the module and nothing
else; and each placeholder is filled, or stands as it was if it was warned of. -/
theorem accounted_of_transform (h : m.transform memory o = .ok a) :
    m.Filled (m.patch a.program a.layout.codeStart).host a ∧
      ∃ skipped reported holes, m.Accounted a skipped reported holes := by
  have hfilled := filled_of_transform h
  obtain ⟨given, symbols, run, image, -, -, hrun, -, rfl⟩ := transform_eq_ok_iff.1 h
  obtain ⟨fs, ds, hfs, hds, haccounts⟩ := Assembler.accounts_addAll (Assembler.sound_empty symbols) hrun
  have hreports := m.forall₂_reports_patch run.program image.layout.codeStart
  have hfunctions : run.functions = fs := hfs
  have hdiagnostics : run.diagnostics = ds := hds
  have hunresolved : (fun hole : Hole => (Trampoline.address? run.program image.layout.codeStart hole.name).isNone) =
      fun hole => decide (∀ f ∈ run.program.functions, f.name ≠ hole.name) := by
    funext hole
    rw [Bool.eq_iff_iff, Option.isNone_iff_eq_none, Trampoline.address?_eq_none_iff, decide_eq_true_iff]
  rw [hunresolved] at hreports
  have hskipped := haccounts.warnings
  have hreported : ∀ d ∈ (m.patch run.program image.layout.codeStart).diagnostics,
      d.severity = .warning ∧ d.code = some "W201" := fun d hd => by
    obtain ⟨hole, hhole⟩ := Reports.of_mem hreports hd
    exact hhole.warning
  have hmem : ∀ d ∈ (m.finish symbols run.program run.diagnostics image).diagnostics,
      d ∈ ds ∨ d ∈ (m.patch run.program image.layout.codeStart).diagnostics := fun d hd =>
    hdiagnostics ▸ List.mem_append.1 hd
  rw [← hfunctions] at haccounts
  refine ⟨hfilled, ds, (m.patch run.program image.layout.codeStart).diagnostics, m.holes,
    { listings := haccounts
      mem_holes_iff := fun hole => mem_holes_iff
      ordered := m.pairwise_holes
      placeholders := hreports
      diagnostics_eq := hdiagnostics ▸ rfl
      severity_eq := fun d hd => (hmem d hd).elim (fun h => (hskipped d h).1) fun h => (hreported d h).1
      skipped_code := fun d hd => (hskipped d hd).2
      reported_code := fun d hd => (hreported d hd).2
      code_ne := fun d hd => ?_ }⟩
  rcases hmem d hd with hd | hd
  · obtain ⟨code, hcode, hd⟩ := (hskipped d hd).2
    rw [hd]
    rintro ⟨⟩
    exact absurd hcode (by decide)
  · rw [(hreported d hd).2]
    decide

theorem accounted_of_transform_two_holes_in_a_line :
    ∃ m, HostModule.parse ("function _f() \x7b\n t(EMTERPRETER__g)(EMTERPRETER__f);\n\x7d [\"FUNC\", 1, 0, 0]\n" ++
        "function _g() \x7b\n u(EMTERPRETER__g);\n\x7d [1]") = .ok m ∧
      ∃ a, m.transform (some ⟨[7], 1⟩) {} = .ok a ∧
        a.diagnostics.map Diagnostic.code = [some "W102", some "W201", some "W201"] ∧
        m.Filled (m.patch a.program a.layout.codeStart).host a ∧
        ∃ skipped reported holes, m.Accounted a skipped reported holes := by
  refine exists_ok_of_map_eq_ok (f := fun m => (m.transform (some ⟨[7], 1⟩) {}).map fun a =>
    a.diagnostics.map Diagnostic.code) (b := .ok [some "W102", some "W201", some "W201"]) ?_ fun m hm hcodes => ?_
  · decide +kernel
  · exact exists_ok_of_map_eq_ok hcodes fun a ha hcodes => ⟨hcodes, accounted_of_transform ha⟩

end HostModule
end Wordcode
