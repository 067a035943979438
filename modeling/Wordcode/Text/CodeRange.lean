/-!
# Text.CodeRange — sets of characters as ranges of code points

A property of characters is a table of ranges.  A table whose ranges ascend from a bound holds no character below that
bound (`has_of_lt`), which settles the ASCII characters without a look at the table.
-/
namespace Wordcode.Text

/-- A set of characters, as closed ranges of code points. -/
abbrev CodeRanges := List (Nat × Nat)

namespace CodeRanges

/-- The character is in one of the ranges. -/
def has (ranges : CodeRanges) (c : Char) : Bool := ranges.any fun (lo, hi) => lo ≤ c.toNat && c.toNat ≤ hi

/-- No range is empty or begins below the bound, and each one ends before the next begins. -/
def ascendsFrom (bound : Nat) : CodeRanges → Bool
  | [] => true
  | (lo, hi) :: more => bound ≤ lo && lo ≤ hi && ascendsFrom (hi + 1) more

/-- **Below the bound from which its ranges ascend, a table is empty.** -/
theorem has_of_lt {c : Char} : ∀ {bound : Nat} {ranges : CodeRanges},
    ascendsFrom bound ranges = true → c.toNat < bound → has ranges c = false
  | _, [], _, _ => rfl
  | bound, (lo, hi) :: more, h, hc => by
    simp only [ascendsFrom, Bool.and_eq_true, decide_eq_true_eq] at h
    have hmore := has_of_lt h.2 (show c.toNat < hi + 1 by omega)
    simp only [has, List.any_cons, Bool.or_eq_false_iff] at hmore ⊢
    refine ⟨?_, hmore⟩
    simp only [Bool.and_eq_false_iff, decide_eq_false_iff_not]
    omega

end CodeRanges
end Wordcode.Text
