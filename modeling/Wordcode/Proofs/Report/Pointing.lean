import Wordcode.Proofs.Listing.Errors
import Wordcode.Proofs.Report.Marks
/-!
# Proofs.Report.Pointing — what a report of a listing's error points at

Listings are read byte by byte and reports are laid out character by character, and the span of an error is handed from
one to the other as it is.  A report shows the line with marks under the characters whose numbers are in the span
(`toList_render_of_le`).  These are the characters whose bytes are in the span exactly if no character in front of the
span's end takes more than one byte (`pointsAt_iff`); else the marks stand beside the element or, if the span's end is
behind the last character, are left out together with the line.
-/
namespace Wordcode.Report

open Text (byteLen)

/-! ## The rows of a report -/

/-- The line that a report shows: its source without the blanks at the end. -/
def lineOf (source : String) : List Char := Text.dropBlanksEnd source.toList

def markOf (source : String) (span : Span) : Mark := ⟨lineOf source, span.start, span.stop⟩

/-- A line as a report shows it: a blank is written as the columns it takes. -/
def shownLine (line : List Char) : List Char :=
  (line.mapIdx fun i c => if Text.isBlank c then List.replicate (widthAt line i) ' ' else [c]).flatten

/-- The rows of a report above the line. -/
def heading (d : Diagnostic) (span : Span) : List Char :=
  written (titleRow d) ++ written (frameTop (sourceName d) (span.start + 1))

/-- The bytes of the character at an index of the text are in the span. -/
def Covered (text : List Char) (span : Span) (i : Nat) : Prop :=
  i < text.length ∧ span.start ≤ byteLen (text.take i) ∧ byteLen (text.take (i + 1)) ≤ span.stop

/-- **A report points at a span of bytes of its source**: below its heading it shows the line, and under it a row that
has marks exactly in the columns of the characters in the span; and it holds all helps. -/
structure PointsAt (d : Diagnostic) (source : String) (span : Span) : Prop where
  marked : ∃ marks below,
    (render false d).toList = heading d span ++ " 1 │ ".toList ++ shownLine (lineOf source) ++
      "\n   │ ".toList ++ marks ++ '\n' :: below ∧ '\n' ∉ marks ∧
    ∀ column, (∃ c, marks[column]? = some c ∧ c ≠ ' ') ↔ ∃ i, Covered source.toList span i ∧
      columnAt (lineOf source) i ≤ column ∧ column < columnAt (lineOf source) (i + 1)
  helped : ∀ help ∈ d.help, Text.contains help.toList (render false d).toList = true

theorem written_sourceRow (m : Mark) :
    written (sourceRow m) = " 1 │ ".toList ++ shownLine m.line ++ ['\n'] := by
  have hcell : ∀ i c, written (sourceCell m i c) =
      if Text.isBlank c then List.replicate (widthAt m.line i) ' ' else [c] := by
    intro i c
    unfold sourceCell
    split
    · exact written_replicate (styled (m.style i) " ") (show " ".toList = [' '] from rfl) _
    · simp [styled]
  have hcells : written (m.line.mapIdx (sourceCell m)).flatten = shownLine m.line := by
    rw [List.flatten_eq_flatMap, written_flatMap, List.flatMap_def, List.mapIdx_eq_zipIdx_map, List.map_map, shownLine,
      List.mapIdx_eq_zipIdx_map]
    exact congrArg List.flatten (List.map_congr_left fun x _ => hcell x.2 x.1)
  rw [sourceRow, written_append, written_append, hcells]
  rfl

variable {d : Diagnostic} {source : String} {span : Span}

theorem toList_render (hspan : d.span = some span) (hsource : d.source = some source) :
    (render false d).toList = written (framed d source span) := by
  rw [render, toList_writeAll, inks, hspan, hsource]

/-- **The report of a span that ends in its source**, counted in characters. -/
theorem toList_render_of_le (hspan : d.span = some span) (hsource : d.source = some source)
    (hs : span.start < span.stop) (hle : span.stop ≤ source.length) :
    (render false d).toList = heading d span ++ " 1 │ ".toList ++ shownLine (lineOf source) ++
      "\n   │ ".toList ++ underline (markOf source span) ++
      '\n' :: (written (leadRow (markOf source span) d.message) ++
        written (helpSection d.help) ++ written frameBottom) := by
  have hreach : inReach source.length span = true := by
    simp only [inReach, Bool.and_eq_true, Bool.or_eq_true, decide_eq_true_eq]
    omega
  rw [toList_render hspan hsource, framed, if_pos hreach, body, if_neg (Nat.not_lt.2 hle), snippet, heading]
  simp only [written_append, written_sourceRow, written_underlineRow, List.append_assoc]
  rfl

theorem takeWhile_ne_newline {row : List Char} (h : '\n' ∉ row) (below : List Char) :
    (row ++ '\n' :: below).takeWhile (· != '\n') = row := by
  refine Text.takeWhile_append_of_stopsAt (fun c hc => bne_iff_ne.2 ?_) fun c hc => by cases hc; rfl
  rintro rfl
  exact h hc

/-- **A report that shows its line** is of a span that ends in its source, and its marks are the underline. -/
theorem eq_underline_of_toList_render (hspan : d.span = some span) (hsource : d.source = some source)
    (hs : span.start < span.stop) {marks below : List Char}
    (h : (render false d).toList = heading d span ++ " 1 │ ".toList ++ shownLine (lineOf source) ++
      "\n   │ ".toList ++ marks ++ '\n' :: below) (hn : '\n' ∉ marks) :
    span.stop ≤ source.length ∧ marks = underline (markOf source span) := by
  by_cases hle : span.stop ≤ source.length
  · refine ⟨hle, ?_⟩
    have hunder := newline_notMem_underline (m := markOf source span) hs
    rw [toList_render_of_le hspan hsource hs hle, List.append_assoc _ marks, List.append_assoc _ (underline _)] at h
    have hrow := congrArg (List.takeWhile (· != '\n')) (List.append_cancel_left h)
    rw [takeWhile_ne_newline hunder, takeWhile_ne_newline hn] at hrow
    exact hrow.symm
  · exfalso
    rw [toList_render hspan hsource, framed, heading, written_append] at h
    simp only [List.append_assoc] at h
    have hrest := List.append_cancel_left h
    split at hrest
    · rw [body, if_pos (Nat.lt_of_not_le hle)] at hrest
      simp only [written_append, List.append_assoc] at hrest
      have hrow := List.append_cancel_left hrest
      -- an empty row has a blank where the row of the line has its number
      cases hrow
    · cases hrest

/-! ## The helps of a report -/

theorem infix_written {a b : List Ink} (h : a <:+: b) : written a <:+: written b := by
  obtain ⟨front, behind, rfl⟩ := h
  rw [written_append, written_append]
  exact ⟨_, _, rfl⟩

theorem infix_helpBlock (count index : Nat) {help : String} (h : Text.lines help = [help]) :
    help.toList <:+: written (helpBlock count index help) := by
  have hrow : [plain help] <:+: helpBlock count index help := by
    rw [helpBlock, h]
    exact ⟨gutter ++ [newline] ++ gutter ++ [styled .help (helpLabel count index), plain ": "], [newline], by
      simp [helpRows]⟩
  simpa [plain] using infix_written hrow

theorem infix_helpSection {helps : List String} {help : String} (hmem : help ∈ helps)
    (h : Text.lines help = [help]) : help.toList <:+: written (helpSection helps) := by
  obtain ⟨i, hi, rfl⟩ := List.mem_iff_getElem.1 hmem
  refine (infix_helpBlock helps.length i h).trans (infix_written (List.infix_of_mem_flatten ?_))
  exact List.mem_mapIdx.2 ⟨i, hi, rfl⟩

theorem contains_render (hspan : d.span = some span) (hsource : d.source = some source)
    (hs : span.start < span.stop) (hle : span.stop ≤ source.length) {help : String} (hmem : help ∈ d.help)
    (h : Text.lines help = [help]) : Text.contains help.toList (render false d).toList = true := by
  have hsection : written (helpSection d.help) <:+: (render false d).toList := by
    rw [toList_render_of_le hspan hsource hs hle, ← List.singleton_append, ← List.append_assoc _ ['\n']]
    exact List.IsInfix.trans ⟨_, _, rfl⟩ (List.suffix_append _ _).isInfix
  obtain ⟨front, behind, hpart⟩ := (infix_helpSection hmem h).trans hsection
  exact (Text.contains_iff _ _).2 ⟨front, behind, hpart.symm⟩

/-! ## Bytes and characters -/

/-- Every character that starts in front of a place takes one byte. -/
def Narrow (text : List Char) (pos : Nat) : Prop :=
  ∀ i c, text[i]? = some c → byteLen (text.take i) < pos → c.utf8Size = 1

theorem Narrow.mono {text : List Char} {pos pos' : Nat} (h : Narrow text pos) (hle : pos' ≤ pos) : Narrow text pos' :=
  fun i c hc hlt => h i c hc (Nat.lt_of_lt_of_le hlt hle)

/-- The text in front of a place is narrow exactly if the place has one number in bytes and in characters. -/
theorem narrow_iff {text : List Char} {n : Nat} (hn : n ≤ text.length) :
    Narrow text (byteLen (text.take n)) ↔ byteLen (text.take n) = n := by
  have hlength : (text.take n).length = n := by rw [List.length_take, Nat.min_eq_left hn]
  conv => rhs; rhs; rw [← hlength]
  rw [Text.byteLen_eq_length_iff]
  constructor
  · intro h c hc
    obtain ⟨i, hi, rfl⟩ := List.mem_iff_getElem.1 hc
    rw [hlength] at hi
    refine h i _ ?_ (Text.byteLen_take_lt hi hn)
    rw [List.getElem_take, List.getElem?_eq_getElem]
  · intro h i c hc hlt
    have hi : i < n := by
      refine Nat.lt_of_not_le fun hle => ?_
      have hin := (List.getElem?_eq_some_iff.1 hc).1
      have hbytes := (Text.byteLen_take_le_iff hn (Nat.le_of_lt hin)).2 hle
      omega
    exact h c (List.mem_of_getElem? (by rw [List.getElem?_take_of_lt hi, hc]))

theorem covered_iff {text : List Char} {m n : Nat} (hm : m ≤ text.length) (hn : n ≤ text.length) (i : Nat) :
    Covered text ⟨byteLen (text.take m), byteLen (text.take n)⟩ i ↔ m ≤ i ∧ i < n := by
  constructor
  · rintro ⟨hi, hstart, hstop⟩
    exact ⟨(Text.byteLen_take_le_iff hm (Nat.le_of_lt hi)).1 hstart, (Text.byteLen_take_le_iff hi hn).1 hstop⟩
  · rintro ⟨hstart, hstop⟩
    have hi : i < text.length := Nat.lt_of_lt_of_le hstop hn
    exact ⟨hi, (Text.byteLen_take_le_iff hm (Nat.le_of_lt hi)).2 hstart, (Text.byteLen_take_le_iff hi hn).2 hstop⟩

theorem widthAt_pos {n : Nat} (h : ∀ c ∈ source.toList[n]?, c.utf8Size = 1) : 0 < widthAt (lineOf source) n := by
  unfold widthAt
  split
  · rename_i c hc
    obtain ⟨rest, hrest⟩ : lineOf source <+: source.toList := Text.dropBlanksEnd_prefix source.toList
    have hin := (List.getElem?_eq_some_iff.1 hc).1
    refine Text.columns_pos _ (h c ?_)
    rw [← hrest, List.getElem?_append_left hin]
    exact hc
  · exact Nat.one_pos

/-- **Marks under one run of characters stand in the columns of another run** only if the runs are the same, if the
first character of the other run and the one behind it take a column. -/
theorem eq_of_columns_iff {line : List Char} {start stop m n : Nat} (hm : m ≤ start) (hn : n ≤ stop) (hmn : m < n)
    (hfirst : 0 < widthAt line m) (hbehind : 0 < widthAt line n)
    (h : ∀ column, (∃ i, (start ≤ i ∧ i < stop) ∧ columnAt line i ≤ column ∧ column < columnAt line (i + 1)) ↔
      ∃ i, (m ≤ i ∧ i < n) ∧ columnAt line i ≤ column ∧ column < columnAt line (i + 1)) : m = start ∧ n = stop := by
  have hstart : m = start := by
    refine Nat.le_antisymm hm (Nat.le_of_not_lt fun hlt => ?_)
    obtain ⟨i, ⟨hi, -⟩, hcolumn, -⟩ := (h (columnAt line m)).2
      ⟨m, ⟨Nat.le_refl _, hmn⟩, Nat.le_refl _, by rw [columnAt]; omega⟩
    have hend : columnAt line m + widthAt line m ≤ columnAt line i := columnAt_mono line (Nat.lt_of_lt_of_le hlt hi)
    omega
  refine ⟨hstart, Nat.le_antisymm hn (Nat.le_of_not_lt fun hlt => ?_)⟩
  obtain ⟨i, ⟨-, hi⟩, -, hcolumn⟩ := (h (columnAt line n)).1
    ⟨n, ⟨by omega, hlt⟩, Nat.le_refl _, by rw [columnAt]; omega⟩
  have hend := columnAt_mono line (show i + 1 ≤ n from hi)
  omega

/-- A report of one-line helps points at a span between cuts of its source exactly if the source is narrow in front of
the span's end. -/
theorem pointsAt_iff_narrow (hspan : d.span = some span) (hsource : d.source = some source)
    (hs : span.start < span.stop) (hstart : Listing.Cut source.toList span.start)
    (hstop : Listing.Cut source.toList span.stop) (hhelp : ∀ help ∈ d.help, Text.lines help = [help]) :
    PointsAt d source span ↔ Narrow source.toList span.stop := by
  have hunder := underline_marked_iff (m := markOf source span) hs
  obtain ⟨start, stop⟩ := span
  obtain ⟨m, hm, rfl, hmhead⟩ := hstart
  obtain ⟨n, hn, rfl, hnhead⟩ := hstop
  constructor
  · rintro ⟨⟨marks, below, hrender, hnewline, hmarks⟩, -⟩
    obtain ⟨-, rfl⟩ := eq_underline_of_toList_render hspan hsource hs hrender hnewline
    simp only [covered_iff hm hn] at hmarks
    have hmn : m < n := Nat.lt_of_not_le fun hle => Nat.lt_irrefl _
      (Nat.lt_of_lt_of_le hs ((Text.byteLen_take_le_iff hn hm).2 hle))
    exact (narrow_iff hn).2 (eq_of_columns_iff (Text.le_byteLen_take hm) (Text.le_byteLen_take hn) hmn
      (widthAt_pos hmhead) (widthAt_pos hnhead) fun column => (hunder column).symm.trans (hmarks column)).2.symm
  · intro hnarrow
    have hstart := (narrow_iff hm).1 (hnarrow.mono (Nat.le_of_lt hs))
    have hstop := (narrow_iff hn).1 hnarrow
    have hle : byteLen (source.toList.take n) ≤ source.length := by rw [hstop]; exact hn
    refine ⟨⟨_, _, toList_render_of_le hspan hsource hs hle, newline_notMem_underline hs, fun column => ?_⟩,
      fun help hmem => contains_render hspan hsource hs hle hmem (hhelp help hmem)⟩
    simp only [covered_iff hm hn]
    simp only [hstart, hstop] at hunder ⊢
    exact hunder column

theorem lines_of_mem_help (kind : Listing.ErrorKind) : ∀ help ∈ kind.help, Text.lines help = [help] := by
  have hlines : ∀ help ∈ (Listing.ErrorKind.invalidSignature "").help ++ (Listing.ErrorKind.missingPrologue .add).help,
      Text.lines help = [help] := by decide +kernel
  intro help hmem
  refine hlines help ?_
  cases kind with
  | invalidSignature => exact List.mem_append_left _ hmem
  | missingPrologue => exact List.mem_append_right _ hmem
  | _ => cases hmem

/-- **What a report of a listing's error points at.**  When reading a listing fails with a span of some bytes, the
report of the warning points at these bytes exactly if every character that starts in front of the span's end takes one
byte. -/
theorem pointsAt_iff {text : String} {e : Listing.Error} (h : Listing.parse text = .error e)
    (hs : e.span.start < e.span.stop) (function : String) :
    PointsAt (e.toDiagnostic function text) text e.span ↔ Narrow text.toList e.span.stop := by
  obtain ⟨hstart, hstop⟩ := Listing.cut_of_parse_eq_error h hs
  exact pointsAt_iff_narrow rfl rfl hs hstart hstop (lines_of_mem_help e.kind)

theorem pointsAt_iff_operand_out_of_range :
    Listing.parse "[\"FUNC\", 999, 0, 0]" = .error ⟨.operandOutOfRange "999", ⟨9, 12⟩⟩ ∧
      PointsAt (Listing.Error.toDiagnostic ⟨.operandOutOfRange "999", ⟨9, 12⟩⟩ "_f" "[\"FUNC\", 999, 0, 0]")
        "[\"FUNC\", 999, 0, 0]" ⟨9, 12⟩ := by
  have hparse : Listing.parse "[\"FUNC\", 999, 0, 0]" = .error ⟨.operandOutOfRange "999", ⟨9, 12⟩⟩ := by decide +kernel
  have hascii : ("[\"FUNC\", 999, 0, 0]".toList.all fun c => c.utf8Size == 1) = true := by decide +kernel
  refine ⟨hparse, (pointsAt_iff hparse (by decide) "_f").2 fun i c hc _ => ?_⟩
  exact beq_iff_eq.1 (List.all_eq_true.1 hascii c (List.mem_of_getElem? hc))

/-- **A name with a character of two bytes** is marked together with the comma behind it. -/
theorem not_pointsAt_two_byte_character :
    Listing.parse "[\"FUNC\", \"é\", 0, 0]" = .error ⟨.expectedByte, ⟨9, 13⟩⟩ ∧
      ¬ PointsAt (Listing.Error.toDiagnostic ⟨.expectedByte, ⟨9, 13⟩⟩ "_f" "[\"FUNC\", \"é\", 0, 0]")
        "[\"FUNC\", \"é\", 0, 0]" ⟨9, 13⟩ := by
  have hparse : Listing.parse "[\"FUNC\", \"é\", 0, 0]" = .error ⟨.expectedByte, ⟨9, 13⟩⟩ := by decide +kernel
  obtain ⟨hstart, hstop⟩ := Listing.cut_of_parse_eq_error hparse (by decide)
  refine ⟨hparse, fun hpoints => ?_⟩
  have hnarrow := (pointsAt_iff_narrow rfl rfl (by decide) hstart hstop (lines_of_mem_help .expectedByte)).1 hpoints
  have hsize : ('é').utf8Size = 1 := hnarrow 10 'é' (by decide) (by decide)
  exact absurd hsize (by decide)

end Wordcode.Report
