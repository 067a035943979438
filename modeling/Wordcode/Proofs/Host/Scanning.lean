import Wordcode.Proofs.Host.Holes
/-!
# Proofs.Host.Scanning — scanning a line substitutes its placeholders all at once

No two placeholders of a line overlap (`Occurs.disjoint`), so there is one way to cut the line into them and the
characters outside of them (`IsCut.unique`), and filling the line replaces each of them in its place.  Looking for the
next opening, and counting the bytes that have been passed, comes to the same (`scan_eq`): what only opens like a
placeholder hides none behind it.  `scan_substitutes` says both.
-/
namespace Wordcode

namespace Text

/-- What stands in front of the first place of a part in a text, and behind it. -/
def cutAround? (part : List Char) : List Char → Option (List Char × List Char)
  | [] => none
  | c :: text =>
    match after? part (c :: text) with
    | some behind => some ([], behind)
    | none => (cutAround? part text).map fun (before, behind) => (c :: before, behind)

variable {part text before behind : List Char}

theorem after?_eq_none_of_append {more : List Char} (h : after? part (text ++ more) = none) :
    after? part text = none := by
  refine Option.eq_none_iff_forall_ne_some.2 fun rest hrest => ?_
  have hlong : after? part (text ++ more) = some (rest ++ more) := by
    rw [after?_eq_some_iff, after?_eq_some_iff.1 hrest, List.append_assoc]
  rw [hlong] at h
  cases h

theorem contains_eq_false_of_cutAround? (h : cutAround? part text = none) (hp : part ≠ []) :
    contains part text = false := by
  induction text with
  | nil => rw [contains, List.isEmpty_eq_false_iff.2 hp]
  | cons c text ih =>
    unfold cutAround? at h
    split at h
    · cases h
    · rename_i hafter
      rw [contains, hafter, ih (Option.map_eq_none_iff.1 h)]
      rfl

/-- **The first place of a part**: the part stands there, and not in the text in front of it. -/
theorem cutAround?_eq_some (h : cutAround? part text = some (before, behind)) (hp : part ≠ []) :
    text = before ++ (part ++ behind) ∧ contains part before = false := by
  induction text generalizing before with
  | nil => cases h
  | cons c text ih =>
    unfold cutAround? at h
    split at h
    · rename_i hafter
      cases h
      rw [after?_eq_some_iff.1 hafter]
      exact ⟨rfl, List.isEmpty_eq_false_iff.2 hp⟩
    · rename_i hafter
      obtain ⟨⟨front, rest⟩, hcut, heq⟩ := Option.map_eq_some_iff.1 h
      cases heq
      obtain ⟨rfl, hfront⟩ := ih hcut
      rw [← List.cons_append] at hafter
      exact ⟨rfl, by rw [contains, after?_eq_none_of_append hafter, hfront]; rfl⟩

end Text

namespace Placeholder

variable (address? : String → Option UInt32)

/-! ## The scan -/

/-- What a scan of a line has made of it so far. -/
structure Scan where
  text : List Char := []
  /-- How many placeholders were replaced. -/
  count : Nat := 0
  /-- The placeholders that were left, each with its bytes in the line. -/
  unresolved : List (String × Span) := []

/-- **Scanning a line from opening to opening.**  So many bytes of the line have been passed; a name without an end, and
an end without a name, is passed as far as the opening goes. -/
def scan (s : Scan) (consumed : Nat) (rest : List Char) : Scan :=
  match _h : Text.cutAround? opening rest with
  | none => { s with text := s.text ++ rest }
  | some (before, behind) =>
    let pos := Text.byteLen before
    let nameStart := pos + Text.byteLen opening
    let name := behind.takeWhile isNameChar
    let more := behind.dropWhile isNameChar
    if name.isEmpty || more.head? != some ')' then
      scan { s with text := s.text ++ (before ++ opening) } (consumed + nameStart) behind
    else
      let close := nameStart + Text.byteLen name
      match address? (String.ofList name) with
      | some address =>
        scan { s with text := s.text ++ before ++ addressChars address, count := s.count + 1 }
          (consumed + (close + 1)) more.tail
      | none =>
        scan
          { s with
            text := s.text ++ before ++ (opening ++ name ++ [')'])
            unresolved := s.unresolved ++ [(String.ofList name, ⟨consumed + pos, consumed + close + 1⟩)] }
          (consumed + (close + 1)) more.tail
termination_by rest.length
decreasing_by
  all_goals
    have hrest := (Text.cutAround?_eq_some _h (by decide)).1
    have hmore := (List.dropWhile_sublist isNameChar (l := behind)).length_le
    have hopening : opening.length = 13 := rfl
    rw [hrest, List.length_append, List.length_append]
    first | omega | (rw [List.length_tail]; omega)

theorem opening_ne_nil : opening ≠ [] := by decide

theorem pieces_of_contains_eq_false {cs : List Char} (h : Text.contains opening cs = false) :
    pieces cs = cs.map .char := by
  induction cs with
  | nil => rw [pieces, List.map_nil]
  | cons c cs ih =>
    rw [Text.contains, Bool.or_eq_false_iff] at h
    have hread : read? (c :: cs) = none := by
      rw [read?, Option.not_isSome_iff_eq_none.1 (Bool.eq_false_iff.1 h.1)]
    rw [pieces_cons_of_none hread, ih h.2]
    rfl

/-- **What only opens like a placeholder is passed**, and the next one may open right behind the opening. -/
theorem pieces_opening_append {behind : List Char} (h : read? (opening ++ behind) = none) :
    pieces (opening ++ behind) = opening.map .char ++ pieces behind := by
  have hmark : '(' ∉ mark.toList := by decide
  rw [opening, List.cons_append] at h ⊢
  rw [pieces_cons_of_none h, pieces_append_of_notMem hmark]
  rfl

theorem holes_map_char_append (pos : Nat) (run : List Char) (ps : List Piece) :
    holes pos (run.map .char ++ ps) = holes (pos + Text.byteLen run) ps := by
  induction run generalizing pos with
  | nil => rfl
  | cons c run ih =>
    rw [List.map_cons, List.cons_append, holes]
    simp only [Piece.chars, Text.byteLen_cons, Text.byteLen_nil, Nat.add_zero]
    rw [ih, Nat.add_assoc]

theorem pieces_of_cutAround? {rest before behind : List Char}
    (h : Text.cutAround? opening rest = some (before, behind)) :
    pieces rest = before.map .char ++ pieces (opening ++ behind) := by
  obtain ⟨rfl, hbefore⟩ := Text.cutAround?_eq_some h opening_ne_nil
  rw [← pieces_of_contains_eq_false hbefore]
  exact pieces_append_paren before (mark.toList ++ behind)

theorem read?_opening_append {behind : List Char}
    (h : ¬((behind.takeWhile isNameChar).isEmpty || (behind.dropWhile isNameChar).head? != some ')') = true) :
    read? (opening ++ behind) =
      some (String.ofList (behind.takeWhile isNameChar), (behind.dropWhile isNameChar).tail) := by
  obtain ⟨hname, hclose⟩ : behind.takeWhile isNameChar ≠ [] ∧ (behind.dropWhile isNameChar).head? = some ')' := by
    simpa only [Bool.or_eq_true, List.isEmpty_iff, bne_iff_ne, ne_eq, not_or, Decidable.not_not] using h
  obtain ⟨more, hmore⟩ := List.head?_eq_some_iff.1 hclose
  rw [read?_eq_some_iff, hmore]
  refine ⟨?_, by rwa [String.toList_ofList], ?_⟩
  · conv => lhs; rw [← List.takeWhile_append_dropWhile (p := isNameChar) (l := behind), hmore]
    simp [chars]
  · rw [String.toList_ofList]
    exact Text.all_takeWhile_mem isNameChar behind

/-- Without a name, or without a closing parenthesis behind it, nothing is read. -/
theorem read?_opening_append_eq_none {behind : List Char}
    (h : ((behind.takeWhile isNameChar).isEmpty || (behind.dropWhile isNameChar).head? != some ')') = true) :
    read? (opening ++ behind) = none := by
  rw [read?, Text.after?_eq_some_iff.2 rfl]
  simp only
  split
  · rename_i c name more htake hdrop
    rw [htake, hdrop] at h
    cases h
  · rfl

theorem flatMap_fill_map_char (run : List Char) : (run.map Piece.char).flatMap (Piece.fill address?) = run := by
  rw [List.flatMap_map]
  exact List.flatMap_singleton' run

theorem pieces_of_read? {cs behind : List Char} {name : String} (h : read? cs = some (name, behind)) :
    pieces cs = .hole name :: pieces behind := by
  obtain ⟨rfl, hn⟩ := read?_eq_some_iff.1 h
  exact pieces_chars_append hn behind

theorem byteLen_chars (name : String) :
    Text.byteLen (chars name) = Text.byteLen opening + Text.byteLen name.toList + 1 := by
  rw [chars, Text.byteLen_append, Text.byteLen_append]
  rfl

theorem holes_of_cutAround? {rest before behind more : List Char} {name : String} (consumed : Nat)
    (h : Text.cutAround? opening rest = some (before, behind)) (hread : read? (opening ++ behind) = some (name, more)) :
    holes consumed (pieces rest) =
      (name, ⟨consumed + Text.byteLen before,
        consumed + (Text.byteLen before + Text.byteLen opening + Text.byteLen name.toList) + 1⟩) ::
        holes (consumed + (Text.byteLen before + Text.byteLen opening + Text.byteLen name.toList + 1))
          (pieces more) := by
  rw [pieces_of_cutAround? h, pieces_of_read? hread, holes_map_char_append, holes]
  simp only [Piece.chars, byteLen_chars, Nat.add_assoc]

/-- **Scanning from opening to opening comes to the same as filling each part of the line.** -/
theorem scan_eq (s : Scan) (consumed : Nat) (rest : List Char) :
    scan address? s consumed rest =
      { text := s.text ++ (pieces rest).flatMap (Piece.fill address?)
        count := s.count + ((holes consumed (pieces rest)).filter fun hole => (address? hole.1).isSome).length
        unresolved := s.unresolved ++ (holes consumed (pieces rest)).filter fun hole => (address? hole.1).isNone } := by
  fun_induction scan with
  | case1 s consumed rest h =>
    have hpieces := pieces_of_contains_eq_false (Text.contains_eq_false_of_cutAround? h opening_ne_nil)
    rw [hpieces, flatMap_fill_map_char, ← List.append_nil (rest.map Piece.char), holes_map_char_append]
    simp [holes]
  | case2 s consumed rest before behind h pos nameStart name more hif ih =>
    rw [ih, pieces_of_cutAround? h, pieces_opening_append (read?_opening_append_eq_none hif)]
    simp only [List.flatMap_append, flatMap_fill_map_char, holes_map_char_append, List.append_assoc, Nat.add_assoc]
    rfl
  | case3 s consumed rest before behind h pos nameStart name more hif close address ha ih =>
    have hread : read? (opening ++ behind) = some (String.ofList name, more.tail) := read?_opening_append hif
    have hholes := holes_of_cutAround? consumed h hread
    rw [String.toList_ofList] at hholes
    rw [ih, hholes, pieces_of_cutAround? h, pieces_of_read? hread]
    simp only [List.flatMap_append, List.flatMap_cons, flatMap_fill_map_char, fill_hole_of_some ha, List.append_assoc,
      List.filter_cons, ha, Option.isSome_some, Option.isNone_some, Bool.false_eq_true, reduceIte, List.length_cons,
      Nat.add_right_comm s.count 1]
    rfl
  | case4 s consumed rest before behind h pos nameStart name more hif close ha ih =>
    have hread : read? (opening ++ behind) = some (String.ofList name, more.tail) := read?_opening_append hif
    have hholes := holes_of_cutAround? consumed h hread
    rw [String.toList_ofList] at hholes
    have hfill : (Piece.hole (String.ofList name)).fill address? = opening ++ name ++ [')'] := by
      rw [fill_hole_of_none ha, chars, String.toList_ofList]
    rw [ih, hholes, pieces_of_cutAround? h, pieces_of_read? hread]
    simp only [List.flatMap_append, List.flatMap_cons, flatMap_fill_map_char, hfill, List.append_assoc,
      List.filter_cons, ha, Option.isSome_none, Option.isNone_none, Bool.false_eq_true, reduceIte]
    rfl

/-! ## One cut -/

theorem forall_of_pairwise {α : Type} {R : α → α → Prop} {l : List α} (h : l.Pairwise R) {a b : α} (ha : a ∈ l)
    (hb : b ∈ l) : a = b ∨ R a b ∨ R b a := by
  induction h with
  | nil => cases ha
  | cons hrel _ ih =>
    rcases List.mem_cons.1 ha with rfl | ha' <;> rcases List.mem_cons.1 hb with rfl | hb'
    · exact .inl rfl
    · exact .inr (.inl (hrel b hb'))
    · exact .inr (.inr (hrel a ha'))
    · exact ih ha' hb'

/-- **Placeholders do not overlap**: one of two ends before the other starts, or they are the same. -/
theorem Occurs.disjoint {line name name' : String} {span span' : Span} (h : Occurs line name span)
    (h' : Occurs line name' span') :
    (name = name' ∧ span = span') ∨ span.stop ≤ span'.start ∨ span'.stop ≤ span.start := by
  rcases forall_of_pairwise (pairwise_holes_stop_le 0 (pieces line.toList)) ((mem_holesOf_iff line name span).2 h)
    ((mem_holesOf_iff line name' span').2 h') with heq | hlt
  · exact .inl (Prod.mk.inj heq)
  · exact .inr hlt

/-- **A line cut into its placeholders and the characters outside of them**: together the parts are the line, and the
placeholders among them are those that stand in the line. -/
structure IsCut (line : String) (ps : List Piece) : Prop where
  line_eq : line.toList = ps.flatMap Piece.chars
  mem_holes_iff : ∀ name span, (name, span) ∈ holes 0 ps ↔ Occurs line name span

theorem isCut_pieces (line : String) : IsCut line (pieces line.toList) :=
  ⟨(flatMap_chars_pieces line.toList).symm, mem_holesOf_iff line⟩

theorem start_lt_stop_of_mem_holes {pos : Nat} {ps : List Piece} :
    ∀ hole ∈ holes pos ps, hole.2.start < hole.2.stop := by
  induction ps generalizing pos with
  | nil => intro hole h; cases h
  | cons p ps ih =>
    cases p with
    | char c => exact ih
    | hole name =>
      intro hole h
      rcases List.mem_cons.1 h with rfl | h
      · show pos < pos + Text.byteLen (chars name)
        rw [byteLen_chars]
        omega
      · exact ih hole h

theorem nodup_holes (pos : Nat) (ps : List Piece) : (holes pos ps).Nodup := by
  refine (pairwise_holes_stop_le pos ps).imp_of_mem fun {a b} ha _ hle heq => ?_
  have hlt := start_lt_stop_of_mem_holes a ha
  rw [← heq] at hle
  omega

/-- In one order, the placeholders that are there are one list. -/
theorem holes_eq_of_mem_iff {pos pos' : Nat} {ps qs : List Piece}
    (h : ∀ hole, hole ∈ holes pos ps ↔ hole ∈ holes pos' qs) : holes pos ps = holes pos' qs := by
  refine List.Perm.eq_of_pairwise (fun a b ha hb hab hba => ?_) (pairwise_holes_stop_le pos ps)
    (pairwise_holes_stop_le pos' qs) ((List.perm_ext_iff_of_nodup (nodup_holes pos ps) (nodup_holes pos' qs)).2 h)
  have hlta := start_lt_stop_of_mem_holes a ha
  have hltb := start_lt_stop_of_mem_holes b hb
  omega

theorem holes_char_ne_holes_hole (pos : Nat) (c : Char) (name : String) (ps qs : List Piece) :
    holes pos (.char c :: ps) ≠ holes pos (.hole name :: qs) := by
  intro h
  have hfirst : (name, ⟨pos, pos + Text.byteLen (chars name)⟩) ∈ holes (pos + Text.byteLen [c]) ps := by
    rw [show holes (pos + Text.byteLen [c]) ps = _ from h]
    exact List.mem_cons_self
  have hle : pos + (c.utf8Size + 0) ≤ pos := start_le_of_mem_holes _ hfirst
  have hsize := c.utf8Size_pos
  omega

/-- The characters of a line and the places of its placeholders leave no choice of parts. -/
theorem eq_of_holes_eq {pos : Nat} {ps qs : List Piece} (hchars : ps.flatMap Piece.chars = qs.flatMap Piece.chars)
    (hholes : holes pos ps = holes pos qs) : ps = qs := by
  induction ps generalizing pos qs with
  | nil =>
    cases qs with
    | nil => rfl
    | cons q qs => cases q <;> cases hchars
  | cons p ps ih =>
    cases qs with
    | nil => cases p <;> cases hchars
    | cons q qs =>
      rw [List.flatMap_cons, List.flatMap_cons] at hchars
      cases p with
      | char c =>
        cases q with
        | char d =>
          obtain ⟨rfl, hrest⟩ := List.cons.inj hchars
          rw [ih hrest hholes]
        | hole name => exact absurd hholes (holes_char_ne_holes_hole pos c name ps qs)
      | hole name =>
        cases q with
        | char d => exact absurd hholes.symm (holes_char_ne_holes_hole pos d name qs ps)
        | hole name' =>
          obtain ⟨hname, hrest⟩ := List.cons.inj hholes
          cases hname
          rw [ih (List.append_cancel_left hchars) hrest]

theorem IsCut.unique {line : String} {ps qs : List Piece} (hp : IsCut line ps) (hq : IsCut line qs) : ps = qs :=
  eq_of_holes_eq (hp.line_eq.symm.trans hq.line_eq) (holes_eq_of_mem_iff fun ⟨name, span⟩ =>
    (hp.mem_holes_iff name span).trans (hq.mem_holes_iff name span).symm)

/-! ## What a scan makes of a line -/

/-- **All placeholders of a line replaced at once**, where they have an address, and nothing else touched. -/
structure Substitution (line : String) (result : Scan) : Prop where
  disjoint : ∀ {name name' span span'}, Occurs line name span → Occurs line name' span' →
    (name = name' ∧ span = span') ∨ span.stop ≤ span'.start ∨ span'.stop ≤ span.start
  /-- There is one way to cut the line, and the text is its parts with an address in place of each name that has one. -/
  text_eq : ∃ ps, IsCut line ps ∧ (∀ qs, IsCut line qs → qs = ps) ∧ result.text = ps.flatMap (Piece.fill address?)
  count_eq : ∃ replaced : List (String × Span), result.count = replaced.length ∧ replaced.Nodup ∧
    ∀ name span, (name, span) ∈ replaced ↔ Occurs line name span ∧ ∃ address, address? name = some address
  mem_unresolved_iff : ∀ name span,
    (name, span) ∈ result.unresolved ↔ Occurs line name span ∧ address? name = none
  ordered : result.unresolved.Pairwise fun a b => a.2.stop ≤ b.2.start
  bytes_eq : ∀ name span, (name, span) ∈ result.unresolved →
    line.toByteArray.extract span.start span.stop = ("(EMTERPRETER_" ++ name ++ ")").toByteArray

theorem Occurs.bytes_eq {line name : String} {span : Span} (h : Occurs line name span) :
    line.toByteArray.extract span.start span.stop = ("(EMTERPRETER_" ++ name ++ ")").toByteArray := by
  obtain ⟨before, behind, hsplit, rfl⟩ := h
  have hchars : String.ofList (chars name) = "(EMTERPRETER_" ++ name ++ ")" := by
    apply String.toList_inj.1
    rw [String.toList_ofList, chars, String.toList_append, String.toList_append]
    rfl
  rw [Text.extract_toByteArray hsplit.toList_eq, hchars]

theorem mem_resolved_iff {line name : String} {span : Span} :
    (name, span) ∈ Trampoline.resolved address? line ↔
      Occurs line name span ∧ ∃ address, address? name = some address := by
  rw [Trampoline.resolved, List.mem_filter, mem_holesOf_iff, Option.isSome_iff_exists]

theorem mem_unresolved_iff {line name : String} {span : Span} :
    (name, span) ∈ Trampoline.unresolved address? line ↔ Occurs line name span ∧ address? name = none := by
  rw [Trampoline.unresolved, List.mem_filter, mem_holesOf_iff, Option.isNone_iff_eq_none]

/-- **A scan substitutes**: it makes of a line what filling makes of it, and that is the line with all placeholders
replaced at once. -/
theorem scan_substitutes (line : String) :
    scan address? {} 0 line.toList =
      { text := (fillLine address? line).toList
        count := (Trampoline.resolved address? line).length
        unresolved := Trampoline.unresolved address? line } ∧
    Substitution address? line (scan address? {} 0 line.toList) := by
  have hscan : scan address? {} 0 line.toList = ⟨(fillLine address? line).toList,
      (Trampoline.resolved address? line).length, Trampoline.unresolved address? line⟩ := by
    rw [scan_eq, fillLine, String.toList_ofList, Nat.zero_add]
    rfl
  rw [hscan]
  refine ⟨rfl, ?_⟩
  constructor
  · exact Occurs.disjoint
  · exact ⟨pieces line.toList, isCut_pieces line, fun qs hq => hq.unique (isCut_pieces line), String.toList_ofList⟩
  · exact ⟨Trampoline.resolved address? line, rfl, (nodup_holes 0 _).filter _, fun _ _ => mem_resolved_iff address?⟩
  · exact fun _ _ => mem_unresolved_iff address?
  · exact (pairwise_holes_stop_le 0 _).filter _
  · exact fun name span h => ((mem_unresolved_iff address?).1 h).1.bytes_eq

/-- An opening inside of another one, and one without a name. -/
example : fillLine (fun name => if name = "_f" then some 28 else none)
    "é(EMTERPRETER_)(EMTERPRETER__a(EMTERPRETER__f)(EMTERPRETER__g)" =
    "é(EMTERPRETER_)(EMTERPRETER__a(28)(EMTERPRETER__g)" := by decide +kernel

end Placeholder
end Wordcode
