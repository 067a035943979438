import Wordcode.Proofs.Assembly.Tiling
import Wordcode.Proofs.Memory
import Wordcode.Proofs.Placeholder
import Wordcode.Transform
/-!
# Proofs.Transform — trampolines land on their own bytecode

An accepted transform passed every stage (`transform_eq_ok_iff`).  A function's place in the stream, the stream's place
in static memory and the base of static memory add up to one address without wrapping around, and the function's bytes
are there (`lands`).  The patch writes that address into every placeholder of the function (`trampolines_land`).
-/
namespace Wordcode

variable {o : Options}

namespace HostModule

/-- **An accepted transform, unpacked.** -/
theorem transform_eq_ok_iff {m : HostModule} {memory : Option StaticMemory} {a : Artifacts} :
    m.transform memory o = .ok a ↔
      ∃ given symbols run image, memory = some given ∧ m.symbols = .ok symbols ∧
        Assembler.addAll symbols .empty m.listings = .ok run ∧ Image.build given run.bytecode o = .ok image ∧
        a = m.finish symbols run.program run.diagnostics image := by
  cases memory with
  | none =>
    refine ⟨fun h => (by cases h), ?_⟩
    rintro ⟨_, _, _, _, h, -⟩
    cases h
  | some given =>
    simp only [transform, assemble, bind_eq_ok_iff]
    constructor
    · rintro ⟨symbols, hs, ⟨p, ds⟩, ⟨run, hrun, hp⟩, image, hi, h⟩
      cases hp
      cases h
      exact ⟨given, symbols, run, image, rfl, hs, hrun, hi, rfl⟩
    · rintro ⟨_, symbols, run, image, h, hs, hrun, hi, rfl⟩
      cases h
      exact ⟨symbols, hs, (run.program, run.diagnostics), ⟨run, hrun, rfl⟩, image, hi, rfl⟩

/-- A line of the body of a function, both by their positions. -/
def bodyLine? (m : HostModule) (function line : Nat) : Option String :=
  m.functions[function]?.bind fun f => f.body[line]?

theorem functions_patch (m : HostModule) (p : Program) (codeStart : UInt32) :
    (m.patch p codeStart).host.functions = m.functions.map fun f =>
      { f with body := f.body.map (Placeholder.fillLine (Trampoline.address? p codeStart)) } := by
  show (m.items.map (Trampoline.fillItem _)).filterMap HostItem.block? = (m.items.filterMap HostItem.block?).map _
  rw [List.filterMap_map, List.map_filterMap]
  refine List.filterMap_congr fun item _ => ?_
  cases item <;> rfl

/-- **Patching fills each line of each body where it stands.** -/
theorem bodyLine?_patch (m : HostModule) (p : Program) (codeStart : UInt32) (i j : Nat) :
    (m.patch p codeStart).host.bodyLine? i j =
      (m.bodyLine? i j).map (Placeholder.fillLine (Trampoline.address? p codeStart)) := by
  rw [bodyLine?, functions_patch, List.getElem?_map, Option.bind_map, bodyLine?, Option.map_bind]
  refine Option.bind_congr fun f _ => ?_
  exact List.getElem?_map

end HostModule

/-- **A function that has instructions starts with a header**, and its locals are what the header asks for. -/
theorem AssembledFunction.Faithful.header {symbols : SymbolTable} {code : List UInt8} {r : Registry}
    {f : AssembledFunction} (h : f.Faithful symbols code r) (hne : f.instructions ≠ []) :
    (encodeAll f.instructions).take 2 = [255, f.locals] := by
  rcases h.headed with ⟨hnil, -, -⟩ | ⟨n, y, z, rest, hcons, hlocals⟩
  · exact absurd hnil hne
  · rw [hcons, hlocals]
    rfl

namespace Artifacts

/-- **The bytecode of a function stands at an address**: on a word, between the start of the bytecode and the stack, the
encodings of the function's instructions and nothing else, with the header's bytes in front. -/
structure Lands (a : Artifacts) (o : Options) (f : AssembledFunction) (address : Nat) : Prop where
  address_eq : address = o.staticBase.toNat + a.layout.codeOffset.toNat + f.offset
  aligned : 4 ∣ address
  start_le : a.layout.codeStart.toNat ≤ address
  stop_le : address + f.len ≤ a.layout.stackStart.toNat
  len_eq : f.len = (f.instructions.flatMap Instruction.encode).length
  bytes_eq : (a.memory.drop (address - o.staticBase.toNat)).take f.len = f.instructions.flatMap Instruction.encode
  header_eq : (a.memory.drop (address - o.staticBase.toNat)).take 2 = [255, f.locals]

end Artifacts

namespace HostModule

variable {m : HostModule} {memory : Option StaticMemory} {a : Artifacts} {f : AssembledFunction}

/-- The image of an accepted transform is an accepted image of its bytecode. -/
theorem built_of_transform (h : m.transform memory o = .ok a) :
    ∃ given, memory = some given ∧ (Image.mk a.layout a.memory).Built given a.program.bytecode o := by
  obtain ⟨given, symbols, run, image, hm, -, -, hi, rfl⟩ := transform_eq_ok_iff.1 h
  exact ⟨given, hm, Image.built hi⟩

/-- The functions of an accepted transform are in its bytecode as listings put them there. -/
theorem faithful_of_transform (h : m.transform memory o = .ok a) (hf : f ∈ a.program.functions) :
    f.Faithful a.symbols a.program.bytecode a.program.registry := by
  obtain ⟨given, symbols, run, image, -, -, hrun, -, rfl⟩ := transform_eq_ok_iff.1 h
  exact ((Assembler.sound_empty symbols).addAll hrun).faithful f hf

/-- **Each function that has instructions lands** where the three origins put it. -/
theorem lands (h : m.transform memory o = .ok a) (hf : f ∈ a.program.functions) (hne : f.instructions ≠ []) :
    a.Lands o f (o.staticBase.toNat + a.layout.codeOffset.toNat + f.offset) := by
  obtain ⟨given, -, hbuilt⟩ := built_of_transform h
  have hfaith := faithful_of_transform h hf
  have hplan : a.layout.Planned given.size a.program.bytecode.length o := hbuilt.planned
  obtain ⟨before, behind, hcode, hoffset⟩ := hfaith.placed
  have hbytes := hbuilt.bytes_eq hcode
  have hheader := hfaith.header hne
  have hlen : 2 ≤ (encodeAll f.instructions).length := by
    have htwo := congrArg List.length hheader
    rw [List.length_take, List.length_cons, List.length_singleton] at htwo
    omega
  have hstart : o.staticBase.toNat + a.layout.codeOffset.toNat + f.offset - o.staticBase.toNat =
      a.layout.codeOffset.toNat + before.length := by omega
  constructor
  · rfl
  · have hbase := hplan.aligned
    have hcodeOffset := hplan.dvd_codeOffset
    have hoff := hfaith.aligned
    exact Nat.dvd_add (Nat.dvd_add (Nat.dvd_trans (by decide) hbase) (Nat.dvd_trans (by decide) hcodeOffset)) hoff
  · rw [hplan.toNat_codeStart]
    exact Nat.le_add_right _ _
  · have hstack := hplan.code_le_stack
    have hstop := hfaith.stop_le
    rw [hplan.toNat_stackStart]
    omega
  · exact hfaith.len_eq
  · rw [hstart, hfaith.len_eq]
    exact hbytes
  · rw [hstart]
    generalize a.memory.drop (a.layout.codeOffset.toNat + before.length) = bytes at hbytes ⊢
    calc bytes.take 2
      _ = (bytes.take (encodeAll f.instructions).length).take 2 := by rw [List.take_take, Nat.min_eq_left hlen]
      _ = (encodeAll f.instructions).take 2 := congrArg _ hbytes
      _ = [255, f.locals] := hheader

/-- **The patcher's address of a function** is the sum of the three origins. -/
theorem address?_of_transform (h : m.transform memory o = .ok a) (hf : a.program.function? f.name = some f) :
    ∃ address, Trampoline.address? a.program a.layout.codeStart f.name = some address ∧
      address.toNat = o.staticBase.toNat + a.layout.codeOffset.toNat + f.offset := by
  obtain ⟨given, -, hbuilt⟩ := built_of_transform h
  have hstop := (faithful_of_transform h (List.mem_of_find?_eq_some hf)).stop_le
  refine ⟨a.layout.codeStart + f.offset.toUInt32, ?_, hbuilt.planned.toNat_codeStart_add (by omega)⟩
  rw [Trampoline.address?, Program.offsetOf?, hf]
  rfl

end HostModule

/-- **Trampolines land on their own bytecode.**  Whatever was transformed, the first function of a name, if it has
instructions, lands at one address, and the module's new text has that address, in decimal, in place of each of the
function's placeholders, on the line that it was on. -/
theorem trampolines_land {text : String} {memory : Option StaticMemory} {m : HostModule} {a : Artifacts}
    (hm : HostModule.parse text = .ok m) (ha : transform text memory o = .ok a) {f : AssembledFunction}
    (hf : a.program.function? f.name = some f) (hne : f.instructions ≠ []) :
    ∃ address, a.Lands o f address ∧ ∃ host : HostModule,
      a.moduleText = host.render a.bindings.imports (a.interpreters.flatMap Interpreter.Routine.lines) ∧
      host.functions.map FunctionBlock.header = m.functions.map FunctionBlock.header ∧
      ∀ i j line before behind, m.bodyLine? i j = some line → Placeholder.Split line before f.name behind →
        host.bodyLine? i j = some
          (Placeholder.fillLine (Trampoline.address? a.program a.layout.codeStart) before ++
            "(" ++ toString address ++ ")" ++
            Placeholder.fillLine (Trampoline.address? a.program a.layout.codeStart) behind) := by
  have hrun : m.transform memory o = .ok a := by
    obtain ⟨m', hm', ha⟩ := bind_eq_ok_iff.1 ha
    rw [hm] at hm'
    cases hm'
    exact ha
  obtain ⟨address, haddress, hsum⟩ := HostModule.address?_of_transform hrun hf
  refine ⟨address.toNat, ?_, (m.patch a.program a.layout.codeStart).host, ?_, ?_, ?_⟩
  · rw [hsum]
    exact HostModule.lands hrun (List.mem_of_find?_eq_some hf) hne
  · obtain ⟨given, symbols, run, image, -, -, -, -, rfl⟩ := HostModule.transform_eq_ok_iff.1 hrun
    rfl
  · rw [HostModule.functions_patch, List.map_map]
    rfl
  · intro i j line before behind hline hsplit
    rw [HostModule.bodyLine?_patch, hline, Option.map_some, Placeholder.fillLine_of_split hsplit haddress]

theorem trampolines_land_behind_data_and_code :
    ∃ m, HostModule.parse ("function _g() \x7b\n\x7d [\"FUNC\", 0, 0, 0]\n" ++
        "function _f() \x7b\n t(EMTERPRETER__f);\n\x7d [\"FUNC\", 1, 0, 0]") = .ok m ∧
      ∃ a, transform ("function _g() \x7b\n\x7d [\"FUNC\", 0, 0, 0]\n" ++
          "function _f() \x7b\n t(EMTERPRETER__f);\n\x7d [\"FUNC\", 1, 0, 0]") (some ⟨[1, 2, 3], 9⟩) {} = .ok a ∧
        a.program.function? "_f" = some ⟨"_f", 4, 4, 1, [.op .prologue 1 0 0]⟩ ∧
        m.bodyLine? 1 0 = some " t(EMTERPRETER__f);" ∧
        ∃ address, a.Lands {} ⟨"_f", 4, 4, 1, [.op .prologue 1 0 0]⟩ address ∧ ∃ host : HostModule,
          a.moduleText = host.render a.bindings.imports (a.interpreters.flatMap Interpreter.Routine.lines) ∧
          host.bodyLine? 1 0 = some
            (Placeholder.fillLine (Trampoline.address? a.program a.layout.codeStart) " t" ++
              "(" ++ toString address ++ ")" ++
              Placeholder.fillLine (Trampoline.address? a.program a.layout.codeStart) ";") := by
  refine exists_ok_of_map_eq_ok (f := fun m => m.bodyLine? 1 0) (b := some " t(EMTERPRETER__f);") ?_
    fun m hm hline => exists_ok_of_map_eq_ok (f := fun a => a.program.function? "_f")
      (b := some ⟨"_f", 4, 4, 1, [.op .prologue 1 0 0]⟩) ?_ fun a ha hf => ⟨hf, hline, ?_⟩
  · decide +kernel
  · decide +kernel
  · have hsplit : Placeholder.Split " t(EMTERPRETER__f);" " t" "_f" ";" := ⟨by decide +kernel, by decide +kernel⟩
    obtain ⟨address, hlands, host, htext, -, hhost⟩ :=
      trampolines_land (f := ⟨"_f", 4, 4, 1, [.op .prologue 1 0 0]⟩) hm ha hf (by decide)
    exact ⟨address, hlands, host, htext, hhost 1 0 _ _ _ hline hsplit⟩

end Wordcode
