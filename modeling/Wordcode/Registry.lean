import Wordcode.Isa.Signature
/-!
# Registry — the signatures seen at the calls of each target

A call in bytecode names its signature by the place the signature has among those of its target, in the order they are
first seen.  The registry is the log of the pairs that were new; a target's own list is read off it, so registering for
one target leaves the others alone (`signatures_register_of_ne`).
-/
namespace Wordcode

/-- The distinct pairs of target and signature, in the order they were registered. -/
structure Registry where
  log : List (UInt8 × Signature)
deriving DecidableEq, Repr

namespace Registry

def empty : Registry := ⟨[]⟩

/-- The most signatures that one target can have. -/
def capacity : Nat := 256

/-- The signatures of a target, by ascending index. -/
def signatures (r : Registry) (target : UInt8) : List Signature :=
  (r.log.filter fun entry => entry.1 == target).map Prod.snd

/-- The signature of a target at an index. -/
def signature? (r : Registry) (target index : UInt8) : Option Signature := (r.signatures target)[index.toNat]?

/-- One more signature for a target. -/
def push (r : Registry) (target : UInt8) (s : Signature) : Registry := ⟨r.log ++ [(target, s)]⟩

/-- **The index of a signature for a target**, registered now if it is new; `none`, and nothing changed, if it is new
and the target has all the signatures it can have. -/
def register (r : Registry) (target : UInt8) (s : Signature) : Option UInt8 × Registry :=
  let known := r.signatures target
  match known.idxOf? s with
  | some index => (some index.toUInt8, r)
  | none => if known.length < capacity then (some known.length.toUInt8, r.push target s) else (none, r)

def isEmpty (r : Registry) : Bool := r.log.isEmpty

/-- The targets with their signatures, by ascending id; a target without signatures is left out. -/
def groups (r : Registry) : List (UInt8 × List Signature) :=
  ((List.range 256).map fun n => (n.toUInt8, r.signatures n.toUInt8)).filter fun group => !group.2.isEmpty

theorem signatures_push_self (r : Registry) (target : UInt8) (s : Signature) :
    (r.push target s).signatures target = r.signatures target ++ [s] := by
  simp [signatures, push]

theorem signatures_push_of_ne (r : Registry) {target other : UInt8} (s : Signature) (h : other ≠ target) :
    (r.push target s).signatures other = r.signatures other := by
  have : ¬ target = other := fun e => h e.symm
  simp [signatures, push, this]

/-- **Registering for one target leaves the others alone.** -/
theorem signatures_register_of_ne (r : Registry) {target other : UInt8} (s : Signature) (h : other ≠ target) :
    (r.register target s).2.signatures other = r.signatures other := by
  unfold register
  simp only
  split
  · rfl
  · split
    · exact signatures_push_of_ne r s h
    · rfl

end Registry
end Wordcode
