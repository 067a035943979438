import Wordcode.Proofs.Host.Items
/-!
# Proofs.Host.Conservation — reading a module loses no line

Lines are refused for a block that opens inside another one, at the first line where one does, or for a block that is
open behind the last line (`parse_eq_error_iff`).  All other lines are kept: written one behind the other, the items
that were read are the lines they were read from (`parse_conserves_lines`).
-/
namespace Wordcode

namespace Text

/-- **What is left of a text between blanks**, which neither starts nor ends with one. -/
def Trimmed (text core : List Char) : Prop :=
  ∃ before behind, text = before ++ (core ++ behind) ∧ (∀ c ∈ before, isBlank c = true) ∧
    (∀ c ∈ behind, isBlank c = true) ∧ StopsAt isBlank core ∧ StopsAt isBlank core.reverse

theorem stopsAt_dropWhile (p : Char → Bool) (cs : List Char) : StopsAt p (cs.dropWhile p) := by
  intro c hc
  have hnot := List.head?_dropWhile_not p cs
  rw [hc] at hnot
  simpa using hnot

theorem StopsAt.of_append {p : Char → Bool} {a b : List Char} (h : StopsAt p (a ++ b)) : StopsAt p a := by
  intro c hc
  cases a with
  | nil => cases hc
  | cons d a => exact h c hc

theorem StopsAt.append {p : Char → Bool} {a b : List Char} (ha : StopsAt p a) (hne : a ≠ []) : StopsAt p (a ++ b) := by
  cases a with
  | nil => exact absurd rfl hne
  | cons d a => exact ha

theorem dropBlanksEnd_append {core behind : List Char} (hb : ∀ c ∈ behind, isBlank c = true)
    (hs : StopsAt isBlank core.reverse) : dropBlanksEnd (core ++ behind) = core := by
  have hrev : ∀ c ∈ behind.reverse, isBlank c = true := fun c hc => hb c (List.mem_reverse.1 hc)
  rw [dropBlanksEnd, List.reverse_append, dropWhile_append_of_stopsAt hrev hs, List.reverse_reverse]

theorem trimmed_trimChars (text : List Char) : Trimmed text (trimChars text) := by
  have hend : dropBlanks text =
      dropBlanksEnd (dropBlanks text) ++ ((dropBlanks text).reverse.takeWhile isBlank).reverse := by
    rw [dropBlanksEnd, ← List.reverse_append, List.takeWhile_append_dropWhile, List.reverse_reverse]
  refine ⟨text.takeWhile isBlank, ((dropBlanks text).reverse.takeWhile isBlank).reverse, ?_,
    all_takeWhile_mem isBlank text, ?_, ?_, ?_⟩
  · rw [trimChars, ← hend]
    exact List.takeWhile_append_dropWhile.symm
  · exact fun c hc => all_takeWhile_mem isBlank _ c (List.mem_reverse.1 hc)
  · have hstart := stopsAt_dropWhile isBlank text
    rw [← dropBlanks, hend] at hstart
    exact hstart.of_append
  · rw [trimChars, dropBlanksEnd, List.reverse_reverse]
    exact stopsAt_dropWhile isBlank _

/-- **Trimming leaves what is between the blanks**, and nothing else is left between them. -/
theorem trimChars_eq_iff (text core : List Char) : trimChars text = core ↔ Trimmed text core := by
  refine ⟨fun h => h ▸ trimmed_trimChars text, ?_⟩
  rintro ⟨before, behind, rfl, hbefore, hbehind, hstart, hstop⟩
  by_cases hne : core = []
  · -- between blanks nothing stops the front ones, which go on into those behind
    subst hne
    have hall : ∀ c ∈ before ++ behind, isBlank c = true := List.forall_mem_append.2 ⟨hbefore, hbehind⟩
    have hnil : StopsAt isBlank [] := fun c hc => by cases hc
    have hnone := dropWhile_append_of_stopsAt hall hnil
    rw [List.append_nil] at hnone
    rw [List.nil_append, trimChars, dropBlanks, hnone]
    rfl
  · rw [trimChars, dropBlanks, dropWhile_append_of_stopsAt hbefore (hstart.append hne)]
    exact dropBlanksEnd_append hbehind hstop

end Text

namespace HostModule

/-! ## What a module is refused for -/

/-- The block that is open behind a line. -/
def openNext (opened : Option String) (line : String) : Option String :=
  match headerName? line with
  | some name => some name
  | none => if line.toList.head? = some '\x7d' then none else opened

/-- **The block that is open behind lines.** -/
def openAfter (ls : List String) : Option String := ls.foldl openNext none

theorem openAfter_concat (ls : List String) (line : String) :
    openAfter (ls ++ [line]) = openNext (openAfter ls) line := by
  rw [openAfter, List.foldl_append]
  rfl

/-- A block opens with the line inside another one that is open in front of it. -/
def Nests (front : List String) (line : String) (e : Fault) : Prop :=
  ∃ inner outer, headerName? line = some inner ∧ openAfter front = some outer ∧
    e = .malformedModule (front.length + 1) s!"function '{inner}' starts before '{outer}' is closed"

/-- No block opens inside another one. -/
def Unnested (ls : List String) : Prop := ∀ front line behind e, ls = front ++ line :: behind → ¬ Nests front line e

/-- **What lines are refused for**: the first block inside another one, or a block that is open behind all of them. -/
inductive Malformed (ls : List String) : Fault → Prop
  | nested {e : Fault} (h : First Unnested Nests ls e) : Malformed ls e
  | unclosed {name : String} (h : Unnested ls) (ho : openAfter ls = some name) :
    Malformed ls (.malformedModule ls.length s!"function '{name}' is never closed")

theorem Nests.unique {front : List String} {line : String} {e e' : Fault} (h : Nests front line e)
    (h' : Nests front line e') : e = e' := by
  obtain ⟨inner, outer, hinner, houter, rfl⟩ := h
  obtain ⟨inner', outer', hinner', houter', rfl⟩ := h'
  rw [hinner] at hinner'
  rw [houter] at houter'
  cases hinner'
  cases houter'
  rfl

theorem Nests.not_unnested {front behind : List String} {line : String} {e : Fault} (h : Nests front line e) :
    ¬ Unnested (front ++ line :: behind) := fun hno => hno front line behind e rfl h

theorem Unnested.concat {ls : List String} {line : String} (h : Unnested ls) (hline : ∀ e, ¬ Nests ls line e) :
    Unnested (ls ++ [line]) := by
  intro front line' behind e hs
  -- the line that is said to nest is the last one, or it is in front of it
  rcases List.eq_nil_or_concat behind with rfl | ⟨behind, last, rfl⟩
  · obtain ⟨rfl, hlast⟩ := List.append_inj' hs rfl
    cases hlast
    exact hline e
  · rw [List.concat_eq_append, ← List.cons_append, ← List.append_assoc] at hs
    exact h front line' behind e (List.append_inj' hs rfl).1

theorem Malformed.unique {ls : List String} {e e' : Fault} (h : Malformed ls e) (h' : Malformed ls e') : e = e' := by
  cases h with
  | nested hf =>
    cases h' with
    | nested hf' => exact hf.unique hf' Nests.not_unnested Nests.unique
    | unclosed hno => exact absurd hno (hf.not_clean Nests.not_unnested)
  | unclosed hno ho =>
    cases h' with
    | nested hf' => exact absurd hno (hf'.not_clean Nests.not_unnested)
    | unclosed _ ho' =>
      rw [ho] at ho'
      cases ho'
      rfl

theorem after?_brace_eq_none_iff (line : String) :
    Text.after? ['\x7d'] line.toList = none ↔ line.toList.head? ≠ some '\x7d' := by
  cases line.toList with
  | nil => exact ⟨fun _ => nofun, fun _ => rfl⟩
  | cons c cs =>
    by_cases hc : '\x7d' = c
    · subst hc
      rw [Text.after?_cons_self]
      exact ⟨fun h => (by cases h), fun h => absurd rfl h⟩
    · rw [Text.after?_cons_of_ne hc]
      exact ⟨fun _ h => hc (Option.some.inj h).symm, fun _ => rfl⟩

/-- What a reading knows of the lines that it has read. -/
structure Reading.Follows (r : Reading) (ls : List String) : Prop where
  line_eq : r.line = ls.length
  opened_eq : r.opened.map OpenBlock.name = openAfter ls
  unnested : Unnested ls

namespace Reading

theorem follows_start : start.Follows [] where
  line_eq := rfl
  opened_eq := rfl
  unnested := by
    intro front line behind e hs
    exact absurd hs.symm (List.append_ne_nil_of_right_ne_nil front (List.cons_ne_nil line behind))

variable {r r' : Reading} {ls : List String}

theorem line_plain (r : Reading) (line : String) : (r.plain line).line = r.line + 1 := by
  unfold plain
  split
  · rfl
  · split <;> rfl

theorem opened_plain (r : Reading) {line : String} (hline : headerName? line = none) :
    (r.plain line).opened.map OpenBlock.name = openNext (r.opened.map OpenBlock.name) line := by
  rw [openNext, hline]
  cases ho : r.opened with
  | none =>
    simp only [plain, ho, Option.map_none]
    split <;> rfl
  | some block =>
    cases hclose : Text.after? ['\x7d'] line.toList with
    | none => simp only [plain, ho, hclose, (after?_brace_eq_none_iff line).1 hclose, if_false, Option.map_some]; rfl
    | some rest =>
      have hhead : line.toList.head? = some '\x7d' := by rw [Text.after?_eq_some_iff.1 hclose]; rfl
      simp only [plain, ho, hclose, hhead, if_true, Option.map_none]

/-- **One more line** opens a block inside another one, or is followed. -/
theorem Follows.step (h : r.Follows ls) (line : String) :
    (∀ r', r.step line = .ok r' → r'.Follows (ls ++ [line])) ∧ ∀ e, r.step line = .error e → Nests ls line e := by
  unfold Reading.step
  cases hline : headerName? line with
  | none =>
    refine ⟨fun r' hr => ?_, fun e he => by cases he⟩
    cases hr
    refine ⟨?_, ?_, h.unnested.concat ?_⟩
    · rw [line_plain, h.line_eq, List.length_append]
      rfl
    · rw [opened_plain r hline, h.opened_eq, openAfter_concat]
    · rintro e ⟨inner, outer, hinner, -⟩
      rw [hline] at hinner
      cases hinner
  | some name =>
    have hopen := h.opened_eq
    cases ho : r.opened with
    | none =>
      rw [ho] at hopen
      refine ⟨fun r' hr => ?_, fun e he => by cases he⟩
      cases hr
      refine ⟨?_, ?_, h.unnested.concat ?_⟩
      · rw [h.line_eq, List.length_append]
        rfl
      · rw [openAfter_concat, openNext, hline]
        rfl
      · rintro e ⟨inner, outer, -, houter, -⟩
        rw [← hopen] at houter
        cases houter
    | some block =>
      -- the only step that fails
      rw [ho] at hopen
      refine ⟨fun r' hr => (by cases hr), fun e he => ?_⟩
      cases he
      exact ⟨name, block.name, hline, hopen.symm, by rw [h.line_eq]; rfl⟩

theorem Follows.foldlM {done : List String} (h : r.Follows done) (ls : List String) :
    (∀ r', ls.foldlM Reading.step r = .ok r' → r'.Follows (done ++ ls)) ∧
      ∀ e, ls.foldlM Reading.step r = .error e → First Unnested Nests (done ++ ls) e := by
  induction ls generalizing r done with
  | nil =>
    refine ⟨fun r' hr => ?_, fun e he => by cases he⟩
    cases hr
    rwa [List.append_nil]
  | cons line ls ih =>
    obtain ⟨hok, herror⟩ := h.step line
    rw [List.foldlM_cons]
    refine ⟨fun r' hr => ?_, fun e he => ?_⟩
    · obtain ⟨r₁, hstep, hr⟩ := bind_eq_ok_iff.1 hr
      have hmore := (ih (hok r₁ hstep)).1 r' hr
      rwa [List.append_assoc] at hmore
    · rcases bind_eq_error_iff.1 he with hstep | ⟨r₁, hstep, he⟩
      · exact .intro rfl h.unnested (herror e hstep)
      · have hmore := (ih (hok r₁ hstep)).2 e he
        rwa [List.append_assoc] at hmore

end Reading

theorem parse_outcome (text : String) :
    (∀ m, parse text = .ok m → Unnested (Text.lines text) ∧ openAfter (Text.lines text) = none) ∧
      ∀ e, parse text = .error e → Malformed (Text.lines text) e := by
  obtain ⟨hok, herror⟩ := Reading.follows_start.foldlM (Text.lines text)
  refine ⟨fun m hm => ?_, fun e he => ?_⟩
  · obtain ⟨r, hr, hm⟩ := bind_eq_ok_iff.1 hm
    obtain ⟨-, hopen, hno⟩ := hok r hr
    unfold Reading.finish at hm
    split at hm
    · cases hm
    · rename_i ho
      rw [ho] at hopen
      exact ⟨hno, hopen.symm⟩
  · rcases bind_eq_error_iff.1 he with hrun | ⟨r, hr, he⟩
    · exact .nested (herror e hrun)
    · obtain ⟨hline, hopen, hno⟩ := hok r hr
      unfold Reading.finish at he
      split at he
      · rename_i block ho
        rw [ho] at hopen
        rw [hline] at he
        cases he
        exact .unclosed hno hopen.symm
      · cases he

/-- **A module is refused exactly for what its lines are refused for.** -/
theorem parse_eq_error_iff (text : String) (e : Fault) : parse text = .error e ↔ Malformed (Text.lines text) e := by
  refine ⟨(parse_outcome text).2 e, fun he => ?_⟩
  cases hparse : parse text with
  | error e' => rw [((parse_outcome text).2 e' hparse).unique he]
  | ok m =>
    obtain ⟨hno, hclosed⟩ := (parse_outcome text).1 m hparse
    cases he with
    | nested hf => exact absurd hno (hf.not_clean Nests.not_unnested)
    | unclosed _ ho =>
      rw [hclosed] at ho
      cases ho

/-! ## What is kept of a module -/

/-- **The listing that stands behind a closing brace**: blanks, at most one comment mark, and an array between blanks. -/
def ListingBehind (rest listing : List Char) : Prop :=
  ∃ blanks tail array, rest = blanks ++ tail ∧ (∀ c ∈ blanks, Text.isBlank c = true) ∧
    Text.StopsAt Text.isBlank tail ∧ (tail = "//".toList ++ array ∨ ¬ "//".toList <+: tail ∧ array = tail) ∧
    Text.Trimmed array listing ∧ listing.head? = some '['

theorem getD_after?_eq_iff (lead text array : List Char) :
    (Text.after? lead text).getD text = array ↔ text = lead ++ array ∨ ¬ lead <+: text ∧ array = text := by
  cases h : Text.after? lead text with
  | some rest =>
    have htext := Text.after?_eq_some_iff.1 h
    simp [htext, eq_comm]
  | none =>
    have hlead : ¬ lead <+: text := by
      rintro ⟨rest, hrest⟩
      rw [Text.after?_eq_some_iff.2 hrest.symm] at h
      cases h
    have hno : text ≠ lead ++ array := fun htext => hlead ⟨array, htext.symm⟩
    simp [hlead, hno, eq_comm]

/-- **A closing line has a listing exactly if one stands behind its brace**, and has that one. -/
theorem listingBehind?_eq_some_iff (rest : List Char) (l : String) :
    listingBehind? rest = some l ↔ ListingBehind rest l.toList := by
  unfold listingBehind?
  simp only
  constructor
  · intro h
    split at h
    · rename_i hhead
      cases h
      rw [String.toList_ofList]
      refine ⟨rest.takeWhile Text.isBlank, Text.dropBlanks rest, _, List.takeWhile_append_dropWhile.symm,
        Text.all_takeWhile_mem _ _, Text.stopsAt_dropWhile _ _, (getD_after?_eq_iff _ _ _).1 rfl,
        Text.trimmed_trimChars _, hhead⟩
    · cases h
  · rintro ⟨blanks, tail, array, rfl, hblanks, htail, harray, htrim, hhead⟩
    rw [Text.dropBlanks, Text.dropWhile_append_of_stopsAt hblanks htail, (getD_after?_eq_iff _ _ _).2 harray,
      (Text.trimChars_eq_iff array l.toList).2 htrim, if_pos hhead, String.ofList_toList]

/-- The line of an item that declares imports. -/
def declarationLine? : HostItem → Option String
  | .declaration line _ => some line
  | _ => none

theorem imports_of_reads {items : List HostItem} {ls : List String} (h : Reads items ls) :
    items.flatMap HostItem.imports =
      (items.filterMap declarationLine?).flatMap fun line => (importsOf? line).getD [] := by
  induction h with
  | nil => rfl
  | @cons item items part more h _ ih =>
    cases h with
    | text =>
      rw [List.flatMap_cons, List.filterMap_cons_none rfl]
      exact ih
    | declaration _ hi =>
      rw [List.flatMap_cons, List.filterMap_cons_some (show declarationLine? _ = some _ from rfl), List.flatMap_cons,
        hi, ih]
      rfl
    | function =>
      rw [List.flatMap_cons, List.filterMap_cons_none rfl]
      exact ih

theorem isBody_of_mem_functions {items : List HostItem} {ls : List String} (h : Reads items ls) :
    ∀ f ∈ items.filterMap HostItem.block?, ∀ line ∈ f.body, IsBody line := by
  intro f hf line hline
  obtain ⟨item, hitem, hblock⟩ := List.mem_filterMap.1 hf
  obtain ⟨part, hpart, -⟩ := h.of_mem hitem
  cases hpart with
  | text => cases hblock
  | declaration => cases hblock
  | function _ hb _ _ =>
    cases hblock
    exact hb line hline

/-- **Reading a module loses no line.**  A text is refused for the first block that opens inside another one, or else
for one that is open at its end.  Otherwise its lines are those of the items, one behind the other: a line, or a header,
a body and a closing line with the listing behind its brace; and its imports are those of the declaring lines. -/
theorem parse_conserves_lines (text : String) :
    (∀ e, parse text = .error e ↔ Malformed (Text.lines text) e) ∧
    (∀ m, parse text = .ok m → Reads m.items (Text.lines text) ∧
      (∀ f ∈ m.functions, ∀ line ∈ f.body, headerName? line = none ∧ line.toList.head? ≠ some '\x7d') ∧
      m.imports = (m.items.filterMap declarationLine?).flatMap fun line => (importsOf? line).getD []) ∧
    ∀ rest l, listingBehind? rest = some l ↔ ListingBehind rest l.toList := by
  refine ⟨parse_eq_error_iff text, fun m hm => ?_, listingBehind?_eq_some_iff⟩
  have hreads := parse_eq_ok_iff.1 hm
  refine ⟨hreads, fun f hf line hline => ?_, imports_of_reads hreads⟩
  obtain ⟨hheader, hbrace⟩ := isBody_of_mem_functions hreads f hf line hline
  exact ⟨hheader, (after?_brace_eq_none_iff line).1 hbrace⟩

/-- A brace outside of all blocks, and what looks like a declaration and like a header in the body of a function. -/
theorem parse_conserves_lines_lookalikes :
    ∃ m, parse "\x7d\nvar a = env.a;\nfunction f() \x7b\nvar b = 1;\nfunction g() \x7b\x7d\n\x7d // [1] " = .ok m ∧
      Reads m.items ["\x7d", "var a = env.a;", "function f() \x7b", "var b = 1;", "function g() \x7b\x7d",
        "\x7d // [1] "] := by
  have hok : (parse "\x7d\nvar a = env.a;\nfunction f() \x7b\nvar b = 1;\nfunction g() \x7b\x7d\n\x7d // [1] ").isOk =
    true := by decide +kernel
  have hlines : Text.lines "\x7d\nvar a = env.a;\nfunction f() \x7b\nvar b = 1;\nfunction g() \x7b\x7d\n\x7d // [1] " =
    ["\x7d", "var a = env.a;", "function f() \x7b", "var b = 1;", "function g() \x7b\x7d", "\x7d // [1] "] := by
    decide +kernel
  obtain ⟨m, hm⟩ := exists_ok_of_isOk hok
  exact ⟨m, hm, hlines ▸ ((parse_conserves_lines _).2.1 m hm).1⟩

end HostModule
end Wordcode
