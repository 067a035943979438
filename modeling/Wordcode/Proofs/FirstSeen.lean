import Mathlib.Data.List.Induction
import Mathlib.Data.List.Perm.Basic
/-!
# Proofs.FirstSeen — a list with only its first occurrences kept

What is kept has the members of the list, by the places where they are first seen (`FirstSeen`).  There is one such list
(`FirstSeen.unique`), `eraseDups` is it (`firstSeen_eraseDups`), and one more element changes it only if it is new
(`FirstSeen.concat_of_mem`, `FirstSeen.concat_of_notMem`).
-/
namespace Wordcode

variable {α : Type} [BEq α]

/-- **The members of a list, in the order they are first seen.** -/
structure FirstSeen (all kept : List α) : Prop where
  mem_iff : ∀ a, a ∈ kept ↔ a ∈ all
  ascending : kept.Pairwise fun a b => all.idxOf a < all.idxOf b

namespace FirstSeen

variable {all kept kept' : List α} {a : α}

theorem nil : FirstSeen ([] : List α) [] := ⟨fun _ => Iff.rfl, .nil⟩

theorem nodup (h : FirstSeen all kept) : kept.Nodup :=
  h.ascending.imp fun {a b} hlt heq => by
    rw [heq] at hlt
    exact Nat.lt_irrefl _ hlt

theorem unique (h : FirstSeen all kept) (h' : FirstSeen all kept') : kept = kept' := by
  have hperm : kept.Perm kept' :=
    (List.perm_ext_iff_of_nodup h.nodup h'.nodup).2 fun a => (h.mem_iff a).trans (h'.mem_iff a).symm
  exact hperm.eq_of_pairwise (fun a b _ _ hab hba => absurd hab (Nat.lt_asymm hba)) h.ascending h'.ascending

variable [LawfulBEq α]

/-- The places of members stay when a list gets longer. -/
theorem ascending_append (h : FirstSeen all kept) (more : List α) :
    kept.Pairwise fun a b => (all ++ more).idxOf a < (all ++ more).idxOf b := by
  refine h.ascending.imp_of_mem fun {a b} ha hb hlt => ?_
  rw [List.idxOf_append_of_mem ((h.mem_iff a).1 ha), List.idxOf_append_of_mem ((h.mem_iff b).1 hb)]
  exact hlt

theorem concat_of_mem (h : FirstSeen all kept) (ha : a ∈ all) : FirstSeen (all ++ [a]) kept where
  mem_iff := fun b => by
    rw [h.mem_iff, List.mem_append, List.mem_singleton]
    exact ⟨.inl, fun hb => hb.elim id fun hb => hb ▸ ha⟩
  ascending := h.ascending_append [a]

/-- **A new element is seen last.** -/
theorem concat_of_notMem (h : FirstSeen all kept) (ha : a ∉ all) : FirstSeen (all ++ [a]) (kept ++ [a]) where
  mem_iff := fun b => by rw [List.mem_append, List.mem_append, h.mem_iff]
  ascending := by
    refine List.pairwise_append.2 ⟨h.ascending_append [a], List.pairwise_singleton _ _, fun b hb c hc => ?_⟩
    have hb' := (h.mem_iff b).1 hb
    rw [List.mem_singleton.1 hc, List.idxOf_append_of_mem hb', List.idxOf_append_of_notMem ha]
    exact Nat.lt_add_right _ (List.idxOf_lt_length_iff.2 hb')

end FirstSeen

theorem firstSeen_eraseDups [LawfulBEq α] (all : List α) : FirstSeen all all.eraseDups := by
  -- from the end of the list: the last element is seen last, or not at all
  induction all using List.reverseRecOn with
  | nil => exact .nil
  | append_singleton all a ih =>
    rw [List.eraseDups_append]
    by_cases ha : a ∈ all
    · have hgone : [a].removeAll all = [] := by simp [List.removeAll, ha]
      rw [hgone, List.eraseDups_nil, List.append_nil]
      exact ih.concat_of_mem ha
    · have hstays : ([a].removeAll all).eraseDups = [a] := by simp [List.removeAll, ha, List.eraseDups_cons]
      rw [hstays]
      exact ih.concat_of_notMem ha

end Wordcode
