import Wordcode.Proofs.Text
import Wordcode.Text.Lines
/-!
# Proofs.Lines — lines that are put under each other are cut apart again

A string without line feeds and carriage returns is one line (`OneLine`).  Such lines come back from the text that they
make (`lines_unlines`), and a text without carriage returns is made of such lines (`oneLine_of_mem_lines`).
-/
namespace Wordcode.Text

/-- **No character of the string ends a line**, nor could it be part of a line's ending. -/
def OneLine (s : String) : Prop := ∀ c ∈ s.toList, c ≠ '\n' ∧ c ≠ '\r'

instance (s : String) : Decidable (OneLine s) :=
  decidable_of_iff ((s.toList.all fun c => c != '\n' && c != '\r') = true) (by simp [OneLine])

theorem OneLine.append {a b : String} (ha : OneLine a) (hb : OneLine b) : OneLine (a ++ b) := by
  intro c hc
  rw [String.toList_append, List.mem_append] at hc
  exact hc.elim (ha c) (hb c)

/-- A string whose characters all come from one line is one line. -/
theorem OneLine.of_subset {a b : String} (hb : OneLine b) (h : ∀ c ∈ a.toList, c ∈ b.toList) : OneLine a := fun c hc =>
  hb c (h c hc)

theorem OneLine.intercalate {sep : String} (hsep : OneLine sep) {parts : List String} (h : ∀ p ∈ parts, OneLine p) :
    OneLine (sep.intercalate parts) := by
  intro c hc
  rw [String.toList_intercalate] at hc
  induction parts with
  | nil => simp at hc
  | cons p parts ih =>
    cases parts with
    | nil => exact h p List.mem_cons_self c (by simpa using hc)
    | cons q parts =>
      rw [List.map_cons, List.map_cons, List.intercalate_cons_cons, List.mem_append, List.mem_append] at hc
      rcases hc with (hc | hc) | hc
      · exact h p List.mem_cons_self c hc
      · exact hsep c hc
      · exact ih (fun r hr => h r (List.mem_cons_of_mem p hr)) hc

theorem oneLine_toString_nat (n : Nat) : OneLine (toString n) := by
  intro c hc
  have hdigit := isDigit_of_mem_toString hc
  constructor <;> rintro rfl <;> cases hdigit

/-- Up to a line feed, a text without returns is one line. -/
theorem cutLines_append_feed {line : List Char} (h : ∀ c ∈ line, c ≠ '\n' ∧ c ≠ '\r') (rest : List Char) :
    cutLines (line ++ '\n' :: rest) = line :: cutLines rest := by
  induction line with
  | nil => rw [List.nil_append, cutLines_cons, if_pos rfl]
  | cons c line ih =>
    have hc := h c List.mem_cons_self
    rw [List.cons_append, cutLines_cons, if_neg hc.1, if_neg (fun hr => hc.2 hr.1),
      ih fun d hd => h d (List.mem_cons_of_mem c hd)]
    rfl

theorem unlines_cons_of_ne_nil (l : String) {ls : List String} (h : ls ≠ []) :
    unlines (l :: ls) = l ++ "\n" ++ unlines ls := by
  rw [unlines, unlines, String.intercalate_cons_of_ne_nil h]
  simp only [String.append_assoc]

/-- **Lines that are put under each other are cut apart again.** -/
theorem lines_unlines : ∀ {ls : List String}, ls ≠ [] → (∀ l ∈ ls, OneLine l) → lines (unlines ls) = ls
  | [l], _, h => by
    have hl := cutLines_append_feed (h l List.mem_cons_self) []
    simp only [lines, unlines, String.intercalate_singleton, String.toList_append]
    rw [show ("\n" : String).toList = ['\n'] from rfl, hl]
    simp [cutLines, LineCut.ofChars, LineCut.empty]
  | l :: m :: ls, _, h => by
    have hl := cutLines_append_feed (h l List.mem_cons_self) (unlines (m :: ls)).toList
    have ih := lines_unlines (List.cons_ne_nil m ls) fun x hx => h x (List.mem_cons_of_mem l hx)
    rw [unlines_cons_of_ne_nil l (List.cons_ne_nil m ls), lines, String.toList_append, String.toList_append,
      List.append_assoc]
    rw [show ("\n" : String).toList ++ (unlines (m :: ls)).toList = '\n' :: (unlines (m :: ls)).toList from rfl, hl,
      List.map_cons, String.ofList_toList]
    exact congrArg _ ih

theorem cutLines_ne_nil : ∀ {text : List Char}, text ≠ [] → cutLines text ≠ []
  | [], h => absurd rfl h
  | c :: text, _ => by
    rw [cutLines_cons]
    split
    · exact List.cons_ne_nil _ _
    split
    · rename_i hc
      have hfeed := hc.2
      rw [startsWithFeed_ofChars] at hfeed
      refine cutLines_ne_nil ?_
      rintro rfl
      cases hfeed
    · cases cutLines text <;> exact List.cons_ne_nil _ _

/-- A text that is not empty has a line. -/
theorem lines_ne_nil {text : String} (h : text ≠ "") : lines text ≠ [] := by
  have hchars : text.toList ≠ [] := fun hnil => h (String.toList_eq_nil_iff.1 hnil)
  exact fun hnil => cutLines_ne_nil hchars (List.map_eq_nil_iff.1 hnil)

/-- **A cut adds no character to a line and leaves no feed in it.** -/
theorem mem_of_mem_cutLines {text line : List Char} (hl : line ∈ cutLines text) : ∀ c ∈ line, c ∈ text ∧ c ≠ '\n' := by
  induction text generalizing line with
  | nil => simp [cutLines, LineCut.ofChars, LineCut.empty] at hl
  | cons d text ih =>
    have hmore : ∀ line' ∈ cutLines text, ∀ c ∈ line', c ∈ d :: text ∧ c ≠ '\n' := fun line' hl' c hc =>
      ⟨List.mem_cons_of_mem d (ih hl' c hc).1, (ih hl' c hc).2⟩
    rw [cutLines_cons] at hl
    split at hl
    · rcases List.mem_cons.1 hl with rfl | hl
      · exact fun c hc => by cases hc
      · exact hmore line hl
    rename_i hd
    split at hl
    · exact hmore line hl
    · cases hcut : cutLines text with
      | nil =>
        rw [hcut] at hl
        rw [List.mem_singleton.1 hl]
        exact fun c hc => by rw [List.mem_singleton.1 hc]; exact ⟨List.mem_cons_self, hd⟩
      | cons first more =>
        rw [hcut] at hl hmore
        rcases List.mem_cons.1 hl with rfl | hl
        · intro c hc
          rcases List.mem_cons.1 hc with rfl | hc
          · exact ⟨List.mem_cons_self, hd⟩
          · exact hmore first List.mem_cons_self c hc
        · exact hmore line (List.mem_cons_of_mem first hl)

/-- **The lines of a text without carriage returns** are lines by themselves. -/
theorem oneLine_of_mem_lines {text : String} (hr : '\r' ∉ text.toList) : ∀ l ∈ lines text, OneLine l := by
  intro l hl c hc
  obtain ⟨line, hline, rfl⟩ := List.mem_map.1 hl
  rw [String.toList_ofList] at hc
  obtain ⟨htext, hfeed⟩ := mem_of_mem_cutLines hline c hc
  exact ⟨hfeed, fun h => hr (h ▸ htext)⟩

end Wordcode.Text
