import Wordcode.Report.Render
/-!
# Proofs.Report.Marks — the marks of a snippet stand under what it marks

Without colour a row is the characters of its inks (`written`).  The rows of a snippet are made of cells as wide as the
characters above them, so a character starts in its row where the cells in front of it end (`columnAt`), and the row
that underlines a span has its marks exactly in the columns of the characters that the span covers
(`underline_marked_iff`).
-/
namespace Wordcode.Report

/-- What inks write without colour. -/
def written (inks : List Ink) : List Char := inks.flatMap fun ink => ink.text.toList

@[simp] theorem written_nil : written [] = [] := rfl

@[simp] theorem written_cons (ink : Ink) (inks : List Ink) : written (ink :: inks) = ink.text.toList ++ written inks :=
  List.flatMap_cons

@[simp] theorem written_append (a b : List Ink) : written (a ++ b) = written a ++ written b := List.flatMap_append

theorem toList_writeAll (inks : List Ink) : (writeAll false inks).toList = written inks := by
  have hwrite : Ink.write false = Ink.text := by
    funext ink
    unfold Ink.write
    split
    · rename_i h
      cases h
    · rfl
  rw [writeAll, String.toList_join, hwrite, written, List.flatMap_map]

theorem written_flatMap {α : Type} (l : List α) (f : α → List Ink) :
    written (l.flatMap f) = l.flatMap fun a => written (f a) := List.flatMap_assoc

theorem written_replicate (ink : Ink) {c : Char} (h : ink.text.toList = [c]) :
    ∀ n, written (List.replicate n ink) = List.replicate n c
  | 0 => rfl
  | n + 1 => by rw [List.replicate_succ, written_cons, h, written_replicate ink h n]; rfl

/-! ## Columns -/

/-- The columns of the character at an index of a line; one for each place behind the line. -/
def widthAt (row : List Char) (i : Nat) : Nat :=
  match row[i]? with
  | some c => Text.columns i c
  | none => 1

/-- **The column in which the character at an index starts.** -/
def columnAt (line : List Char) : Nat → Nat
  | 0 => 0
  | i + 1 => columnAt line i + widthAt line i

theorem columnAt_mono (line : List Char) {i : Nat} : ∀ {j}, i ≤ j → columnAt line i ≤ columnAt line j
  | 0, h => Nat.le_of_eq (by rw [Nat.le_zero.1 h])
  | j + 1, h => by
    rcases Nat.lt_or_eq_of_le h with hlt | rfl
    · exact Nat.le_trans (columnAt_mono line (Nat.le_of_lt_succ hlt)) (Nat.le_add_right _ _)
    · exact Nat.le_refl _

section Cells

variable {line : List Char} {cell : Nat → List Char}

theorem length_cells (hcell : ∀ i, (cell i).length = widthAt line i) : ∀ n,
    ((List.range n).flatMap cell).length = columnAt line n
  | 0 => rfl
  | n + 1 => by
    rw [List.range_succ, List.flatMap_append, List.length_append, length_cells hcell n, List.flatMap_singleton, hcell,
      columnAt]

/-- **A place in a row of cells** is a place in one of the cells. -/
theorem getElem?_cells (hcell : ∀ i, (cell i).length = widthAt line i) (k : Nat) (a : Char) : ∀ n,
    ((List.range n).flatMap cell)[k]? = some a ↔
      ∃ i < n, columnAt line i ≤ k ∧ (cell i)[k - columnAt line i]? = some a
  | 0 => by simp
  | n + 1 => by
    rw [List.range_succ, List.flatMap_append, List.flatMap_singleton]
    by_cases hk : k < columnAt line n
    · rw [List.getElem?_append_left (by rwa [length_cells hcell]), getElem?_cells hcell k a n]
      constructor
      · rintro ⟨i, hi, hle, ha⟩
        exact ⟨i, Nat.lt_succ_of_lt hi, hle, ha⟩
      · rintro ⟨i, hi, hle, ha⟩
        refine ⟨i, Nat.lt_of_le_of_ne (Nat.le_of_lt_succ hi) ?_, hle, ha⟩
        rintro rfl
        omega
    · rw [List.getElem?_append_right (by rw [length_cells hcell]; omega), length_cells hcell]
      constructor
      · exact fun ha => ⟨n, Nat.lt_succ_self n, Nat.le_of_not_lt hk, ha⟩
      · rintro ⟨i, hi, hle, ha⟩
        rcases Nat.lt_or_eq_of_le (Nat.le_of_lt_succ hi) with hlt | rfl
        · -- a cell in front of the last one ends before `k`
          have hend : columnAt line i + widthAt line i ≤ columnAt line n := columnAt_mono line hlt
          have hshort := (List.getElem?_eq_some_iff.1 ha).1
          rw [hcell] at hshort
          omega
        · exact ha

end Cells

/-! ## The underline -/

/-- The row of marks under a line. -/
def underline (m : Mark) : List Char := (List.range m.reach).flatMap fun i => written (underlineCell m i)

theorem written_underlineRow (m : Mark) : written (underlineRow m) = "   │ ".toList ++ underline m ++ ['\n'] := by
  rw [underlineRow, written_append, written_append, written_flatMap]
  rfl

theorem length_written_cell (width : Nat) {first rest : Ink} {c d : Char} (hc : first.text.toList = [c])
    (hd : rest.text.toList = [d]) : (written (cell width first rest)).length = width := by
  cases width with
  | zero => rfl
  | succ n => simp [cell, hc, written_replicate rest hd]

theorem mem_written_cell {width : Nat} {first rest : Ink} {c d : Char} (hc : first.text.toList = [c])
    (hd : rest.text.toList = [d]) : ∀ x ∈ written (cell width first rest), x = c ∨ x = d := by
  cases width with
  | zero => intro x hx; cases hx
  | succ n =>
    intro x hx
    rw [cell, written_cons, hc, written_replicate rest hd] at hx
    rcases List.mem_cons.1 hx with rfl | hx
    · exact .inl rfl
    · exact .inr (List.eq_of_mem_replicate hx)

/-- In a cell of the underline there are marks if the span covers its character, and else blanks. -/
theorem written_underlineCell {m : Mark} (hm : m.start < m.stop) (i : Nat) :
    (written (underlineCell m i)).length = widthAt m.line i ∧
      ∀ c ∈ written (underlineCell m i), c ≠ '\n' ∧ (c ≠ ' ' ↔ m.covers i = true) := by
  have hwidth : m.width i = widthAt m.line i := rfl
  have hmiddle : m.covers m.middle = true := by
    have hin : m.start ≤ m.middle ∧ m.middle < m.stop := by
      rw [Mark.middle]
      omega
    simpa [Mark.covers] using hin
  unfold underlineCell
  rw [← hwidth]
  by_cases hcovers : m.covers i = true
  · simp only [hcovers, if_true, iff_true]
    by_cases hi : i = m.middle
    · rw [if_pos hi]
      refine ⟨length_written_cell _ rfl rfl, fun c hc => ?_⟩
      rcases mem_written_cell rfl rfl c hc with rfl | rfl <;> exact ⟨by decide, by decide⟩
    · rw [if_neg hi, fillCell, written_replicate (c := '─') _ rfl]
      refine ⟨List.length_replicate, fun c hc => ?_⟩
      rw [List.eq_of_mem_replicate hc]
      exact ⟨by decide, by decide⟩
  · have hi : i ≠ m.middle := by
      rintro rfl
      exact hcovers hmiddle
    rw [if_neg hi, if_neg hcovers, fillCell, written_replicate (c := ' ') _ rfl]
    refine ⟨List.length_replicate, fun c hc => ?_⟩
    rw [List.eq_of_mem_replicate hc]
    exact ⟨by decide, by simp [hcovers]⟩

theorem newline_notMem_underline {m : Mark} (hm : m.start < m.stop) : '\n' ∉ underline m := by
  intro h
  obtain ⟨i, -, hi⟩ := List.mem_flatMap.1 h
  exact ((written_underlineCell hm i).2 _ hi).1 rfl

/-- **The marks of the underline stand in the columns of the characters that the span covers.** -/
theorem underline_marked_iff {m : Mark} (hm : m.start < m.stop) (column : Nat) :
    (∃ c, (underline m)[column]? = some c ∧ c ≠ ' ') ↔
      ∃ i, (m.start ≤ i ∧ i < m.stop) ∧ columnAt m.line i ≤ column ∧ column < columnAt m.line (i + 1) := by
  have hcells := getElem?_cells (fun i => (written_underlineCell hm i).1) column
  constructor
  · rintro ⟨c, hc, hmark⟩
    obtain ⟨i, -, hle, hi⟩ := (hcells c _).1 hc
    have hcovers := ((written_underlineCell hm i).2 c (List.mem_of_getElem? hi)).2.1 hmark
    have hlt := (List.getElem?_eq_some_iff.1 hi).1
    rw [(written_underlineCell hm i).1] at hlt
    refine ⟨i, by simpa [Mark.covers] using hcovers, hle, ?_⟩
    rw [columnAt]
    omega
  · rintro ⟨i, hi, hle, hlt⟩
    rw [columnAt] at hlt
    have hplace : column - columnAt m.line i < (written (underlineCell m i)).length := by
      rw [(written_underlineCell hm i).1]
      omega
    have hc := List.getElem?_eq_getElem hplace
    refine ⟨_, (hcells _ _).2 ⟨i, ?_, hle, hc⟩, ?_⟩
    · rw [Mark.reach]
      omega
    · refine ((written_underlineCell hm i).2 _ (List.mem_of_getElem? hc)).2.2 ?_
      simpa [Mark.covers] using hi

end Wordcode.Report
