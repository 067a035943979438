import Wordcode.Proofs.Lines
import Wordcode.Proofs.Report.Marks
/-!
# Proofs.Report.Colour — colour adds escape sequences and nothing else

A painted ink is its text between two escape sequences (`dropEscapes_write`), so deleting the sequences from what is
written in colour leaves what is written without, as long as no text has an escape of its own (`dropEscapes_writeAll`).
All that a report writes by itself is such text, and the rest is the diagnostic's (`bareInks_inks`): a diagnostic without
escapes is shown alike in colour and without (`dropEscapes_render`).
-/
namespace Wordcode.Report

open Text (after? after?_cons_self after?_cons_of_ne after?_eq_some_iff)

/-! ## Escape sequences -/

/-- A character of the parameters between an escape and the letter at its end. -/
def isParameter (c : Char) : Bool := c.isDigit || c == ';'

/-- What follows the escape sequence for a style that a text starts with. -/
def afterEscape? (text : List Char) : Option (List Char) := do
  let rest ← after? ['\x1b', '['] text
  after? ['m'] (rest.dropWhile isParameter)

theorem length_lt_of_afterEscape? {text rest : List Char} (h : afterEscape? text = some rest) :
    rest.length < text.length := by
  obtain ⟨behind, hbehind, hrest⟩ := Option.bind_eq_some_iff.1 h
  have hle := (List.dropWhile_suffix (l := behind) isParameter).length_le
  rw [after?_eq_some_iff.1 hrest] at hle
  rw [after?_eq_some_iff.1 hbehind]
  simp only [List.length_append, List.length_cons] at hle ⊢
  omega

/-- **A text without its escape sequences for styles.** -/
def dropEscapes : List Char → List Char
  | [] => []
  | c :: text =>
    match _h : afterEscape? (c :: text) with
    | some rest => dropEscapes rest
    | none => c :: dropEscapes text
termination_by text => text.length
decreasing_by
  · exact length_lt_of_afterEscape? _h
  · exact Nat.lt_succ_self _

theorem dropEscapes_of_some {text rest : List Char} (h : afterEscape? text = some rest) :
    dropEscapes text = dropEscapes rest := by
  cases text with
  | nil => cases h
  | cons c text =>
    rw [dropEscapes]
    split
    · rename_i hsome
      rw [h] at hsome
      cases hsome
      rfl
    · rename_i hnone
      rw [h] at hnone
      cases hnone

theorem dropEscapes_cons_of_ne {c : Char} (hc : '\x1b' ≠ c) (text : List Char) :
    dropEscapes (c :: text) = c :: dropEscapes text := by
  have hnone : afterEscape? (c :: text) = none := by rw [afterEscape?, after?_cons_of_ne hc]; rfl
  rw [dropEscapes]
  split
  · rename_i hsome
    rw [hnone] at hsome
    cases hsome
  · rfl

/-! ## Inks -/

/-- The text has no escape. -/
def Bare (text : String) : Prop := '\x1b' ∉ text.toList

instance (text : String) : Decidable (Bare text) :=
  decidable_of_iff ((!text.toList.contains '\x1b') = true) (by simp [Bare])

/-- No text of the inks has an escape. -/
def BareInks (inks : List Ink) : Prop := ∀ ink ∈ inks, Bare ink.text

instance (inks : List Ink) : Decidable (BareInks inks) :=
  decidable_of_iff ((inks.all fun ink => decide (Bare ink.text)) = true) (by simp [BareInks])

theorem dropEscapes_append {text : List Char} (h : '\x1b' ∉ text) (rest : List Char) :
    dropEscapes (text ++ rest) = text ++ dropEscapes rest := by
  induction text with
  | nil => rfl
  | cons c text ih =>
    rw [List.mem_cons, not_or] at h
    rw [List.cons_append, dropEscapes_cons_of_ne h.1, ih h.2, List.cons_append]

/-- **An escape sequence is deleted**, whatever follows it. -/
theorem dropEscapes_escape {parameters : String} (h : parameters.toList.all isParameter = true)
    (rest : List Char) : dropEscapes ((escape parameters).toList ++ rest) = dropEscapes rest := by
  refine dropEscapes_of_some ?_
  have hstop : Text.StopsAt isParameter ('m' :: rest) := fun c hc => by cases hc; rfl
  have htext : (escape parameters).toList ++ rest = '\x1b' :: '[' :: (parameters.toList ++ 'm' :: rest) := by
    simp [escape]
  rw [htext, afterEscape?, after?_cons_self, after?_cons_self]
  show after? ['m'] ((parameters.toList ++ 'm' :: rest).dropWhile isParameter) = some rest
  rw [Text.dropWhile_append_of_stopsAt (List.all_eq_true.1 h) hstop, after?_cons_self]
  rfl

theorem all_isParameter_parameters (style : Style) : style.parameters.toList.all isParameter = true := by
  cases style <;> decide

/-- **A painted ink is its text once the escape sequences are deleted.** -/
theorem dropEscapes_write {ink : Ink} (h : Bare ink.text) (rest : List Char) :
    dropEscapes ((ink.write true).toList ++ rest) = ink.text.toList ++ dropEscapes rest := by
  obtain ⟨style, text⟩ := ink
  cases style with
  | none => exact dropEscapes_append h rest
  | some style =>
    have hwrite : (Ink.write true ⟨some style, text⟩).toList ++ rest =
        (escape style.parameters).toList ++ (text.toList ++ ((escape "0").toList ++ rest)) := by
      simp [Ink.write]
    rw [hwrite, dropEscapes_escape (all_isParameter_parameters style), dropEscapes_append h,
      dropEscapes_escape (by decide)]

/-- **So is what inks write one after the other.** -/
theorem dropEscapes_writeAll {inks : List Ink} (h : BareInks inks) :
    dropEscapes (writeAll true inks).toList = (writeAll false inks).toList := by
  rw [toList_writeAll]
  induction inks with
  | nil => simp [writeAll, dropEscapes]
  | cons ink inks ih =>
    have hcons : (writeAll true (ink :: inks)).toList = (ink.write true).toList ++ (writeAll true inks).toList := by
      simp [writeAll]
    rw [hcons, dropEscapes_write (h ink List.mem_cons_self), ih fun i hi => h i (List.mem_cons_of_mem ink hi),
      written_cons]

example : writeAll true [plain "a ", styled .label "┬"] = "a \x1b[38;5;155m┬\x1b[0m" := by decide

/-! ## What a report writes -/

theorem Bare.append {a b : String} (ha : Bare a) (hb : Bare b) : Bare (a ++ b) := by
  rw [Bare, String.toList_append, List.mem_append, not_or]
  exact ⟨ha, hb⟩

theorem bare_spaces (n : Nat) : Bare (Text.spaces n) := by
  rw [Bare, Text.spaces, String.toList_ofList, List.mem_replicate]
  exact fun h => absurd h.2 (by decide)

theorem bare_toString (n : Nat) : Bare (toString n) := fun h => by
  have hdigit := Text.isDigit_of_mem_toString h
  cases hdigit

theorem bare_of_mem_lines {text line : String} (h : Bare text) (hl : line ∈ Text.lines text) : Bare line := by
  obtain ⟨chars, hchars, rfl⟩ := List.mem_map.1 hl
  rw [Bare, String.toList_ofList]
  exact fun hesc => h (Text.mem_of_mem_cutLines hchars _ hesc).1

theorem bareInks_append {a b : List Ink} (ha : BareInks a) (hb : BareInks b) : BareInks (a ++ b) :=
  List.forall_mem_append.2 ⟨ha, hb⟩

theorem bareInks_cons {ink : Ink} {inks : List Ink} (h : Bare ink.text) (hs : BareInks inks) : BareInks (ink :: inks) :=
  List.forall_mem_cons.2 ⟨h, hs⟩

theorem bareInks_flatMap {α : Type} {l : List α} {f : α → List Ink} (h : ∀ a ∈ l, BareInks (f a)) :
    BareInks (l.flatMap f) := fun ink hink => by
  obtain ⟨a, ha, hmem⟩ := List.mem_flatMap.1 hink
  exact h a ha ink hmem

theorem bareInks_fillCell {ink : Ink} (h : Bare ink.text) (width : Nat) : BareInks (fillCell width ink) :=
  fun i hi => by rwa [(List.mem_replicate.1 hi).2]

theorem bareInks_cell {first rest : Ink} (hf : Bare first.text) (hr : Bare rest.text) (width : Nat) :
    BareInks (cell width first rest) := by
  cases width with
  | zero => exact fun _ h => by cases h
  | succ more => exact bareInks_cons hf (bareInks_fillCell hr more)

/-- **The rows of a snippet** write the line's characters, the message, and marks. -/
theorem bareInks_snippet {m : Mark} {message : String} (hline : '\x1b' ∉ m.line) (hmessage : Bare message) :
    BareInks (snippet m message) := by
  have hsource : BareInks (m.line.mapIdx (sourceCell m)).flatten := by
    intro ink hink
    obtain ⟨cell, hcell, hmem⟩ := List.mem_flatten.1 hink
    obtain ⟨i, hi, rfl⟩ := List.mem_mapIdx.1 hcell
    unfold sourceCell at hmem
    split at hmem
    · exact bareInks_fillCell (show Bare " " by decide) _ ink hmem
    · rw [List.mem_singleton.1 hmem]
      intro hesc
      rw [styled, String.toList_singleton, List.mem_singleton] at hesc
      exact hline (hesc ▸ List.getElem_mem hi)
  have hunderline : ∀ i, BareInks (underlineCell m i) := fun i => by
    unfold underlineCell
    dsimp only
    split
    · split
      · exact bareInks_cell (by decide) (by decide) _
      · exact bareInks_cell (by decide) (by decide) _
    · split
      · exact bareInks_fillCell (by decide) _
      · exact bareInks_fillCell (by decide) _
  have hlead : ∀ i, BareInks (leadCell m i) := fun i => by
    unfold leadCell
    dsimp only
    split
    · exact bareInks_fillCell (by decide) _
    · split
      · exact bareInks_cell (by decide) (by decide) _
      · exact bareInks_fillCell (by decide) _
  refine bareInks_append (bareInks_append ?_ ?_) ?_
  · exact bareInks_append (bareInks_append (by decide) hsource) (by decide)
  · exact bareInks_append (bareInks_append (by decide) (bareInks_flatMap fun i _ => hunderline i)) (by decide)
  · exact bareInks_append (bareInks_append (by decide) (bareInks_flatMap fun i _ => hlead i))
      (bareInks_cons (by decide) (bareInks_cons hmessage (by decide)))

/-- **No text of the diagnostic has an escape.** -/
structure BareDiagnostic (d : Diagnostic) : Prop where
  message : Bare d.message
  function : ∀ name ∈ d.function, Bare name
  source : ∀ source ∈ d.source, Bare source
  code : ∀ code ∈ d.code, Bare code
  help : ∀ help ∈ d.help, Bare help

theorem bare_getD {text : Option String} {other : String} (h : ∀ t ∈ text, Bare t) (ho : Bare other) :
    Bare (text.getD other) := by
  cases text with
  | none => exact ho
  | some text => exact h text rfl

theorem bare_codeColumn {code : Option String} (h : ∀ c ∈ code, Bare c) : Bare (codeColumn code) := by
  cases code with
  | none => decide
  | some code => exact Bare.append (Bare.append (by decide) (Bare.append (h code rfl) (bare_spaces _))) (by decide)

theorem bare_codeTag {code : Option String} (h : ∀ c ∈ code, Bare c) : Bare (Diagnostic.codeTag code) := by
  cases code with
  | none => decide
  | some code => exact (Bare.append (a := "[") (by decide) (h code rfl)).append (by decide)

theorem bare_functionTag {name : Option String} (h : ∀ n ∈ name, Bare n) : Bare (Diagnostic.functionTag name) := by
  cases name with
  | none => decide
  | some name => exact (Bare.append (a := " (in ") (by decide) (h name rfl)).append (by decide)

theorem bareInks_titleRow {d : Diagnostic} (h : BareDiagnostic d) : BareInks (titleRow d) := by
  have hcode := bare_codeColumn h.code
  have htitle : Bare (title d.severity) := by cases d.severity <;> decide
  exact bareInks_cons (hcode.append htitle) (bareInks_cons (by decide) (bareInks_cons h.message (by decide)))

theorem bareInks_frameTop {name : String} (h : Bare name) (column : Nat) : BareInks (frameTop name column) := by
  have hplace : Bare s!" {name}:1:{column} " :=
    (((Bare.append (by decide) h).append (by decide)).append (bare_toString column)).append (by decide)
  have hfront : BareInks [plain "   ", styled .margin "╭", styled .margin "─", styled .margin "["] := by decide
  exact bareInks_append hfront (bareInks_cons hplace (by decide))

theorem bareInks_body {source message : String} (hs : Bare source) (hm : Bare message) (span : Span) :
    BareInks (body source span message) := by
  unfold body
  split
  · decide
  · exact bareInks_snippet (fun h => hs ((Text.dropBlanksEnd_prefix _).subset h)) hm

theorem bareInks_helpRows {label : String} {lines : List String} (hlabel : Bare label) (h : ∀ l ∈ lines, Bare l) :
    BareInks (helpRows label lines) := by
  cases lines with
  | nil => exact fun _ h => by cases h
  | cons first more =>
    refine bareInks_append (bareInks_append (by decide) ?_) (bareInks_flatMap fun line hline => ?_)
    · exact bareInks_cons hlabel (bareInks_cons (by decide) (bareInks_cons (h first List.mem_cons_self) (by decide)))
    · exact bareInks_append (by decide) (bareInks_cons (bare_spaces _)
        (bareInks_cons (h line (List.mem_cons_of_mem first hline)) (by decide)))

theorem bareInks_helpSection {helps : List String} (h : ∀ help ∈ helps, Bare help) : BareInks (helpSection helps) := by
  intro ink hink
  obtain ⟨block, hblock, hmem⟩ := List.mem_flatten.1 hink
  obtain ⟨i, hi, rfl⟩ := List.mem_mapIdx.1 hblock
  have hlabel : Bare (helpLabel helps.length i) := by
    unfold helpLabel
    split
    · decide
    · exact Bare.append (a := "Help ") (by decide) (bare_toString (i + 1))
  exact bareInks_append (by decide)
    (bareInks_helpRows hlabel fun l hl => bare_of_mem_lines (h _ (List.getElem_mem hi)) hl) ink hmem

theorem bareInks_framed {d : Diagnostic} (h : BareDiagnostic d) {source : String} (hs : Bare source) (span : Span) :
    BareInks (framed d source span) := by
  refine bareInks_append (bareInks_titleRow h) ?_
  split
  · have hname : Bare (sourceName d) := bare_getD h.function (by decide)
    have hframe := bareInks_append (bareInks_frameTop hname (span.start + 1)) (bareInks_body hs h.message span)
    exact bareInks_append (bareInks_append hframe (bareInks_helpSection h.help)) (by decide)
  · decide

theorem bareInks_brief {d : Diagnostic} (h : BareDiagnostic d) : BareInks (brief d) := by
  have hword : Bare d.severity.word := by cases d.severity <;> decide
  have hheadline : Bare d.headline :=
    (((hword.append (bare_codeTag h.code)).append (by decide)).append h.message).append (bare_functionTag h.function)
  exact bareInks_append (bareInks_cons hheadline (by decide))
    (bareInks_flatMap fun help hhelp => bareInks_cons (by decide) (bareInks_cons (h.help help hhelp) (by decide)))

/-- **What a report writes by itself has no escape.** -/
theorem bareInks_inks {d : Diagnostic} (h : BareDiagnostic d) : BareInks (inks d) := by
  unfold inks
  split
  · rename_i hsource
    exact bareInks_framed h (h.source _ hsource) _
  · exact bareInks_brief h

/-- **Colour does not change what is shown.**  Of a diagnostic whose texts have no escape, the coloured report without
its escape sequences is the report without colour, which has none. -/
theorem dropEscapes_render {d : Diagnostic} (h : BareDiagnostic d) :
    dropEscapes (render true d).toList = (render false d).toList ∧ '\x1b' ∉ (render false d).toList := by
  refine ⟨dropEscapes_writeAll (bareInks_inks h), fun hesc => ?_⟩
  rw [render, toList_writeAll, written] at hesc
  obtain ⟨ink, hink, hmem⟩ := List.mem_flatMap.1 hesc
  exact bareInks_inks h ink hink hmem

/-- A source with a tab and a wide character, and two helps, one of two lines. -/
theorem dropEscapes_render_two_helps :
    ∃ d : Diagnostic, d = ⟨.warning, "m", some "_f", some ⟨8, 12⟩, some "[\"FUNC\",\t\"字\", 0]", ["a\nb", "c"],
        some "W105"⟩ ∧ BareDiagnostic d ∧
      dropEscapes (render true d).toList = (render false d).toList ∧ '\x1b' ∉ (render false d).toList := by
  refine ⟨_, rfl, ?_⟩
  have hbare : BareDiagnostic ⟨.warning, "m", some "_f", some ⟨8, 12⟩, some "[\"FUNC\",\t\"字\", 0]", ["a\nb", "c"],
      some "W105"⟩ :=
    { message := by decide
      function := fun _ h => by cases h; decide
      source := fun _ h => by cases h; decide
      code := fun _ h => by cases h; decide
      help := List.forall_mem_cons.2 ⟨by decide, List.forall_mem_singleton.2 (by decide)⟩ }
  exact ⟨hbare, dropEscapes_render hbare⟩

end Wordcode.Report
