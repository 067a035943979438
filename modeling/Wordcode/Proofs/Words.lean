import Wordcode.Text.Column
import Wordcode.Text.Find
/-!
# Proofs.Words — the words of a line

A text that is put together with a separator comes apart there again (`cutAll_append_cons`), and what is put behind a
text without one joins its last part (`exists_cutAll_append`).  The words of a text are what stands between its spaces
(`words`), however many they are, so that padding adds no word to a text (`words_padLeft`, `words_padRight`).
-/
namespace Wordcode.Text

theorem cutAll_of_not_mem {c : Char} : ∀ {text : List Char}, c ∉ text → cutAll c text = [text]
  | [], _ => rfl
  | d :: text, h => by
    rw [List.mem_cons, not_or] at h
    rw [cutAll, if_neg (Ne.symm h.1), cutAll_of_not_mem h.2]
    rfl

/-- What is put behind a text joins the last of its parts. -/
theorem exists_cutAll_append {c : Char} {suffix : List Char} (h : c ∉ suffix) : ∀ text : List Char,
    ∃ front part, cutAll c text = front ++ [part] ∧ cutAll c (text ++ suffix) = front ++ [part ++ suffix]
  | [] => ⟨[], [], rfl, cutAll_of_not_mem h⟩
  | d :: text => by
    obtain ⟨front, part, ht, hs⟩ := exists_cutAll_append h text
    rw [List.cons_append, cutAll, cutAll, ht, hs]
    by_cases hd : d = c
    · rw [if_pos hd, if_pos hd]
      exact ⟨[] :: front, part, rfl, rfl⟩
    · rw [if_neg hd, if_neg hd]
      cases front with
      | nil => exact ⟨[], d :: part, rfl, rfl⟩
      | cons first front => exact ⟨(d :: first) :: front, part, rfl, rfl⟩

theorem intoFirst_append (c : Char) {parts : List (List Char)} (h : parts ≠ []) (more : List (List Char)) :
    intoFirst c (parts ++ more) = intoFirst c parts ++ more := by
  cases parts with
  | nil => exact absurd rfl h
  | cons part parts => rfl

/-- **A separator cuts a text in two.** -/
theorem cutAll_append_cons (c : Char) (behind : List Char) : ∀ text : List Char,
    cutAll c (text ++ c :: behind) = cutAll c text ++ cutAll c behind
  | [] => by simp [cutAll]
  | d :: text => by
    rw [List.cons_append, cutAll, cutAll, cutAll_append_cons c behind text]
    by_cases hd : d = c
    · rw [if_pos hd, if_pos hd]
      rfl
    · rw [if_neg hd, if_neg hd, intoFirst_append d (cutAll_ne_nil c text)]

/-- **The words of a text**, with spaces around them. -/
def words (text : String) : List String := ((cutAll ' ' text.toList).filter (· ≠ [])).map String.ofList

theorem words_append_space (a b : String) : words (a ++ " " ++ b) = words a ++ words b := by
  have hcut : (a ++ " " ++ b).toList = a.toList ++ ' ' :: b.toList := by simp [String.toList_append]
  rw [words, hcut, cutAll_append_cons, List.filter_append, List.map_append]
  rfl

theorem words_of_word {s : String} (hne : s ≠ "") (h : ' ' ∉ s.toList) : words s = [s] := by
  have hkeep : ([s.toList].filter (· ≠ [])) = [s.toList] := by simp [hne]
  rw [words, cutAll_of_not_mem h, hkeep, List.map_singleton, String.ofList_toList]

theorem words_space_append (s : String) : words (" " ++ s) = words s := words_append_space "" s

theorem words_append_one_space (s : String) : words (s ++ " ") = words s := by
  have h := words_append_space s ""
  rwa [String.append_empty, show words "" = [] from rfl, List.append_nil] at h

theorem spaces_succ (n : Nat) : spaces (n + 1) = " " ++ spaces n := by
  rw [spaces, List.replicate_succ, ← List.singleton_append, String.ofList_append]
  rfl

theorem words_spaces_append (s : String) : ∀ n, words (spaces n ++ s) = words s
  | 0 => by rw [show spaces 0 = "" from rfl, String.empty_append]
  | n + 1 => by rw [spaces_succ, String.append_assoc, words_space_append, words_spaces_append s n]

theorem words_append_spaces : ∀ (n : Nat) (s : String), words (s ++ spaces n) = words s
  | 0, s => by rw [show spaces 0 = "" from rfl, String.append_empty]
  | n + 1, s => by
    rw [spaces_succ, ← String.append_assoc, words_append_spaces n, words_append_one_space]

theorem words_padLeft (width : Nat) (s : String) : words (padLeft width s) = words s := words_spaces_append s _

theorem words_padRight (width : Nat) (s : String) : words (padRight width s) = words s := words_append_spaces _ s

end Wordcode.Text
