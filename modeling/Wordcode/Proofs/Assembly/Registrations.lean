import Wordcode.Proofs.Assembly.Table
import Wordcode.Proofs.FirstSeen
/-!
# Proofs.Assembly.Registrations — a registry after any registrations

Each target has the signatures that were registered for it, by first-seen order, up to the last one that a byte can
count (`Keeps`).  One more registration keeps it so (`Keeps.register`), and it answers the place that the signature has
from then on, or nothing if the target is full (`answers_of_keeps`).  The same registrations in a table make its groups
(`Registered`).
-/
namespace Wordcode.Registry

/-- The signatures that registering was asked for, for one target. -/
def askedFor (calls : List (UInt8 × Signature)) (target : UInt8) : List Signature :=
  (calls.filter fun call => call.1 == target).map Prod.snd

/-- **The registry has kept what was registered**: for each target the signatures by first-seen order, as many as it can
have. -/
def Keeps (calls : List (UInt8 × Signature)) (r : Registry) : Prop :=
  ∀ target, ∃ seen, FirstSeen (askedFor calls target) seen ∧ r.signatures target = seen.take capacity

/-- **What registering a signature for a target does**, to this registry and to every later one. -/
structure Answers (r : Registry) (target : UInt8) (s : Signature) : Prop where
  eq_none_iff : (r.register target s).1 = none ↔ (r.signatures target).length = 256 ∧ s ∉ r.signatures target
  unchanged : (r.register target s).1 = none → (r.register target s).2 = r
  known : s ∈ r.signatures target → ∃ index, r.register target s = (some index, r)
  /-- The index is the signature's, and registering it again answers the same and changes nothing. -/
  stays : ∀ index, (r.register target s).1 = some index → ∀ more,
    (((r.register target s).2.registerAll more).signature? target index = some s ∧
      ((r.register target s).2.registerAll more).register target s =
        (some index, (r.register target s).2.registerAll more))
  others : ∀ other, other ≠ target → (r.register target s).2.signatures other = r.signatures other

/-- **What a registry is that signatures were registered in.** -/
structure Registered (calls : List (UInt8 × Signature)) (r : Registry) : Prop where
  keeps : r.Keeps calls
  nodup : ∀ target, (r.signatures target).Nodup
  length_le : ∀ target, (r.signatures target).length ≤ 256
  extended : ∀ more target, r.signatures target <+: (r.registerAll more).signatures target
  /-- The groups are the rows of a table that all was registered in. -/
  groups_eq : r.groups = Table.registerAll [] calls
  ascending : (Table.registerAll [] calls).Ascending
  mem_groups : ∀ target signatures,
    (target, signatures) ∈ r.groups ↔ (∃ s, (target, s) ∈ calls) ∧ signatures = r.signatures target
  rows_ne_nil : ∀ row ∈ Table.registerAll [] calls, row.2 ≠ []

variable {calls : List (UInt8 × Signature)} {r : Registry}

theorem askedFor_concat_self (target : UInt8) (s : Signature) :
    askedFor (calls ++ [(target, s)]) target = askedFor calls target ++ [s] := by
  simp [askedFor]

theorem askedFor_concat_of_ne {target other : UInt8} (s : Signature) (h : other ≠ target) :
    askedFor (calls ++ [(target, s)]) other = askedFor calls other := by
  simp [askedFor, Ne.symm h]

theorem mem_askedFor {target : UInt8} {s : Signature} : s ∈ askedFor calls target ↔ (target, s) ∈ calls := by
  simp [askedFor]

theorem keeps_empty : empty.Keeps [] := fun _ => ⟨[], .nil, rfl⟩

theorem Keeps.nodup (h : r.Keeps calls) (target : UInt8) : (r.signatures target).Nodup := by
  obtain ⟨seen, hseen, htake⟩ := h target
  rw [htake]
  exact hseen.nodup.sublist (List.take_sublist _ _)

theorem Keeps.bounded (h : r.Keeps calls) : r.Bounded := by
  intro target
  obtain ⟨seen, -, htake⟩ := h target
  rw [htake]
  exact List.length_take_le _ _

/-- **One more registration is kept**: a known signature changes nothing, a new one goes to the end, and one behind the
last that can be counted goes nowhere. -/
theorem Keeps.register (h : r.Keeps calls) (target : UInt8) (s : Signature) :
    (r.register target s).2.Keeps (calls ++ [(target, s)]) := by
  intro other
  by_cases ho : other = target
  · subst ho
    obtain ⟨seen, hseen, htake⟩ := h other
    rw [askedFor_concat_self]
    rcases r.register_cases other s with ⟨k, hk, hr⟩ | ⟨hnew, hlt, hr⟩ | ⟨hnew, hfull, hr⟩ <;> rw [hr]
    · have hold : s ∈ seen := List.mem_of_mem_take (htake ▸ List.mem_of_getElem? hk)
      exact ⟨seen, hseen.concat_of_mem ((hseen.mem_iff s).1 hold), htake⟩
    · -- fewer than the target can have: none of those seen has been left out
      have hshort : seen.length < capacity := by
        rw [htake, List.length_take] at hlt
        omega
      have hall : r.signatures other = seen := htake.trans (List.take_of_length_le (Nat.le_of_lt hshort))
      have hout : s ∉ askedFor calls other := fun hs => hnew (hall ▸ (hseen.mem_iff s).2 hs)
      refine ⟨seen ++ [s], hseen.concat_of_notMem hout, ?_⟩
      rw [signatures_push_self, hall, List.take_of_length_le (by simp; omega)]
    · -- as many as the target can have: what is seen from now on is left out
      have hlong : capacity ≤ seen.length := by
        rw [htake, List.length_take] at hfull
        omega
      by_cases hs : s ∈ askedFor calls other
      · exact ⟨seen, hseen.concat_of_mem hs, htake⟩
      · refine ⟨seen ++ [s], hseen.concat_of_notMem hs, ?_⟩
        rw [htake, List.take_append_of_le_length hlong]
  · rw [askedFor_concat_of_ne s ho, signatures_register_of_ne r s ho]
    exact h other

theorem Keeps.registerAll (h : r.Keeps calls) (more : List (UInt8 × Signature)) :
    (r.registerAll more).Keeps (calls ++ more) := by
  induction more generalizing r calls with
  | nil =>
    rw [List.append_nil]
    exact h
  | cons call more ih =>
    rw [List.append_cons]
    exact ih (h.register call.1 call.2)

theorem extends_registerAll (r : Registry) (more : List (UInt8 × Signature)) : r.Extends (r.registerAll more) := by
  induction more generalizing r with
  | nil => exact .refl r
  | cons call more ih => exact (r.extends_register call.1 call.2).trans (ih _)

/-- A signature that has an index is found there again. -/
theorem register_of_signature? (h : r.Keeps calls) {target index : UInt8} {s : Signature}
    (hs : r.signature? target index = some s) : r.register target s = (some index, r) := by
  have hmem : s ∈ r.signatures target := List.mem_of_getElem? hs
  rcases r.register_cases target s with ⟨k, hk, hr⟩ | ⟨hnew, -, -⟩ | ⟨hnew, -, -⟩
  · obtain ⟨hlt, -⟩ := List.getElem?_eq_some_iff.1 hk
    have hplace : k = index.toNat := (List.getElem?_inj hlt (h.nodup target)).1 (hk.trans hs.symm)
    rw [hr, hplace]
    simp
  · exact absurd hmem hnew
  · exact absurd hmem hnew

theorem answers_of_keeps (h : r.Keeps calls) (target : UInt8) (s : Signature) : r.Answers target s where
  eq_none_iff := by
    have hlen := h.bounded target
    have hcap : capacity = 256 := rfl
    rcases r.register_cases target s with ⟨k, hk, hr⟩ | ⟨-, hlt, hr⟩ | ⟨hnew, hfull, hr⟩ <;> rw [hr]
    · simp [List.mem_of_getElem? hk]
    · simp; omega
    · simp only [true_iff]
      exact ⟨by omega, hnew⟩
  unchanged := by
    rcases r.register_cases target s with ⟨k, hk, hr⟩ | ⟨-, hlt, hr⟩ | ⟨hnew, hfull, hr⟩ <;> simp [hr]
  known := by
    intro hs
    rcases r.register_cases target s with ⟨k, -, hr⟩ | ⟨hnew, -, -⟩ | ⟨hnew, -, -⟩
    · exact ⟨_, hr⟩
    · exact absurd hs hnew
    · exact absurd hs hnew
  stays := by
    intro index hindex more
    have hs := (extends_registerAll _ more).signature?_eq (signature?_register h.bounded hindex)
    exact ⟨hs, register_of_signature? ((h.register target s).registerAll more) hs⟩
  others := fun _ ho => r.signatures_register_of_ne s ho

/-- A target has signatures exactly if one was registered for it. -/
theorem Keeps.signatures_ne_nil_iff (h : r.Keeps calls) (target : UInt8) :
    r.signatures target ≠ [] ↔ ∃ s, (target, s) ∈ calls := by
  obtain ⟨seen, hseen, htake⟩ := h target
  have hnil : seen.take capacity = [] ↔ seen = [] := by simp [capacity]
  rw [htake, Ne, hnil, List.eq_nil_iff_forall_not_mem, not_forall]
  exact exists_congr fun s => by rw [not_not, hseen.mem_iff, mem_askedFor]

/-- **A registry after any registrations**: its targets are those that were asked for, each with the signatures that were
first seen for it, at most 256 and without duplicates; and what one more registration answers stays true. -/
theorem registered_registerAll (calls : List (UInt8 × Signature)) :
    (empty.registerAll calls).Registered calls ∧ ∀ target s, (empty.registerAll calls).Answers target s := by
  have hkeeps : (empty.registerAll calls).Keeps calls := keeps_empty.registerAll calls
  have hgroups : Table.registerAll [] calls = (empty.registerAll calls).groups := by
    rw [← Table.registerAll_groups, Table.groups_empty]
  refine ⟨?registered, answers_of_keeps hkeeps⟩
  case registered =>
    refine ⟨hkeeps, hkeeps.nodup, hkeeps.bounded, fun more => extends_registerAll _ more, hgroups.symm,
      Table.ascending_registerAll .nil calls, ?groups, ?rows⟩
    case groups =>
      intro target signatures
      rw [mem_groups_iff, ← hkeeps.signatures_ne_nil_iff]
      constructor
      · rintro ⟨rfl, hne⟩
        exact ⟨hne, rfl⟩
      · rintro ⟨hne, rfl⟩
        exact ⟨rfl, hne⟩
    case rows =>
      rintro ⟨target, signatures⟩ hrow
      rw [hgroups] at hrow
      exact (mem_groups_iff.1 hrow).2

end Wordcode.Registry
