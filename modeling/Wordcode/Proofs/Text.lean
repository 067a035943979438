import Wordcode.Text.Find
/-!
# Proofs.Text — a run of characters ends where its class does

Names and numbers are read as the longest run of characters of a class.  A run with a text behind it that does not start
in the class is read back, whole and with nothing of that text (`takeWhile_append_of_stopsAt`), and what a text starts
with, if it is of the class, can be read off its first run (`after?_takeWhile`).  A written number is a run of digits
(`isDigit_of_mem_toString`) that stands for no other number (`toString_nat_injective`).
-/
namespace Wordcode.Text

/-- The text does not start with a character of the class. -/
def StopsAt (p : Char → Bool) (cs : List Char) : Prop := ∀ c ∈ cs.head?, p c = false

theorem takeWhile_append_of_stopsAt {p : Char → Bool} {run rest : List Char} (hr : ∀ c ∈ run, p c = true)
    (hs : StopsAt p rest) : (run ++ rest).takeWhile p = run := by
  rw [List.takeWhile_append_of_pos hr]
  cases rest with
  | nil => simp
  | cons c rest => rw [List.takeWhile_cons_of_neg (by simp [hs c rfl]), List.append_nil]

theorem dropWhile_append_of_stopsAt {p : Char → Bool} {run rest : List Char} (hr : ∀ c ∈ run, p c = true)
    (hs : StopsAt p rest) : (run ++ rest).dropWhile p = rest := by
  rw [List.dropWhile_append_of_pos hr]
  cases rest with
  | nil => rfl
  | cons c rest => rw [List.dropWhile_cons_of_neg (by simp [hs c rfl])]

theorem all_takeWhile_mem (p : Char → Bool) (cs : List Char) : ∀ c ∈ cs.takeWhile p, p c = true :=
  List.all_eq_true.1 List.all_takeWhile

theorem after?_cons_self (c : Char) (lead text : List Char) : after? (c :: lead) (c :: text) = after? lead text :=
  if_pos (beq_self_eq_true c)

theorem after?_cons_of_ne {c d : Char} (h : c ≠ d) (lead text : List Char) : after? (c :: lead) (d :: text) = none :=
  if_neg fun heq => h (beq_iff_eq.1 heq)

/-- What a text starts with, if it is of one class of characters, can be read off the text's run of that class. -/
theorem after?_takeWhile {p : Char → Bool} {lead : List Char} (hl : ∀ c ∈ lead, p c = true) (cs : List Char) :
    after? lead (cs.takeWhile p) = (after? lead cs).map (List.takeWhile p) := by
  induction lead generalizing cs with
  | nil => rfl
  | cons c lead ih =>
    have hc := hl c List.mem_cons_self
    have ih := ih fun d hd => hl d (List.mem_cons_of_mem c hd)
    cases cs with
    | nil => rfl
    | cons d cs =>
      by_cases hcd : c = d
      · subst hcd
        rw [List.takeWhile_cons_of_pos hc, after?_cons_self, after?_cons_self, ih]
      · rw [after?_cons_of_ne hcd, List.takeWhile_cons]
        split
        · exact after?_cons_of_ne hcd _ _
        · rfl

theorem isDigit_of_mem_toString {n : Nat} {c : Char} (h : c ∈ (toString n).toList) : c.isDigit = true :=
  Nat.isDigit_of_mem_toDigits (by decide) (by decide) (show c ∈ Nat.toDigits 10 n by simpa using h)

theorem toString_nat_injective {m n : Nat} (h : toString m = toString n) : m = n := by
  have hdigits : Nat.toDigits 10 m = Nat.toDigits 10 n := by simpa using congrArg String.toList h
  have hback := congrArg (Nat.ofDigitChars 10 · 0) hdigits
  simpa only [Nat.ofDigitChars_ten_toDigits] using hback

end Wordcode.Text
