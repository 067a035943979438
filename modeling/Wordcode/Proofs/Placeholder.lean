import Wordcode.Host.Placeholder
import Wordcode.Proofs.Text
/-!
# Proofs.Placeholder — filling a placeholder leaves the rest of the line to itself

What a scan takes for a placeholder is one (`read?_eq_some_iff`).  No parenthesis opens inside a placeholder, so the
parts of a line in front of an opening parenthesis are the parts of that text alone (`pieces_append_paren`), and a
placeholder anywhere in a line is found (`pieces_append_chars`) and filled (`fillLine_of_split`).
-/
namespace Wordcode.Placeholder

/-- What a placeholder can name: one or more letters, digits, underscores and dollar signs. -/
def IsName (name : String) : Prop := name.toList ≠ [] ∧ ∀ c ∈ name.toList, isNameChar c = true

instance (name : String) : Decidable (IsName name) :=
  decidable_of_iff ((!name.toList.isEmpty && name.toList.all isNameChar) = true) (by simp [IsName])

/-- **A line with a placeholder for a name in it**, and what stands in front of it and behind. -/
structure Split (line before name behind : String) : Prop where
  line_eq : line = before ++ "(" ++ mark ++ name ++ ")" ++ behind
  isName : IsName name

theorem Split.toList_eq {line before name behind : String} (h : Split line before name behind) :
    line.toList = before.toList ++ (chars name ++ behind.toList) := by
  rw [h.line_eq]
  simp [chars, opening]

theorem stopsAt_paren (behind : List Char) : Text.StopsAt isNameChar (')' :: behind) := by
  intro c hc
  cases hc
  decide

/-- **A text starts with a placeholder** exactly where a scan reads one. -/
theorem read?_eq_some_iff {cs behind : List Char} {name : String} :
    read? cs = some (name, behind) ↔ cs = chars name ++ behind ∧ IsName name := by
  constructor
  · intro h
    refine ⟨eq_of_read? h, ?_⟩
    unfold read? at h
    split at h
    · cases h
    · rename_i rest hrest
      split at h
      · rename_i c run b htake hdrop
        cases h
        rw [IsName, String.toList_ofList, ← htake]
        exact ⟨by rw [htake]; exact List.cons_ne_nil c run, Text.all_takeWhile_mem isNameChar rest⟩
      · cases h
  · rintro ⟨rfl, hne, hall⟩
    obtain ⟨c, run, hrun⟩ := List.exists_cons_of_ne_nil hne
    have hafter : Text.after? opening (chars name ++ behind) = some (name.toList ++ ')' :: behind) := by
      rw [Text.after?_eq_some_iff]
      simp [chars]
    have htake := Text.takeWhile_append_of_stopsAt hall (stopsAt_paren behind)
    have hdrop := Text.dropWhile_append_of_stopsAt hall (stopsAt_paren behind)
    rw [hrun] at htake hdrop
    unfold read?
    rw [hafter]
    simp only [hrun, htake, hdrop]
    rw [← hrun, String.ofList_toList]

theorem paren_not_mem_tail_chars {name : String} (h : IsName name) : '(' ∉ (chars name).tail := by
  intro hmem
  rcases List.mem_append.1 (show '(' ∈ mark.toList ++ (name.toList ++ [')']) by simpa [chars, opening] using hmem) with
    hmark | hmem
  · exact absurd hmark (by decide)
  · rcases List.mem_append.1 hmem with hname | hclose
    · exact absurd (h.2 _ hname) (by decide)
    · exact absurd hclose (by decide)

/-- A text that starts with no placeholder still starts with none once a parenthesis opens behind it. -/
theorem read?_append_paren_eq_none {c : Char} {cs : List Char} (h : read? (c :: cs) = none) (rest : List Char) :
    read? (c :: (cs ++ '(' :: rest)) = none := by
  rw [Option.eq_none_iff_forall_ne_some]
  rintro ⟨name, behind⟩ hread
  obtain ⟨heq, hn⟩ := read?_eq_some_iff.1 hread
  rw [← List.cons_append] at heq
  rcases List.append_eq_append_iff.1 heq with ⟨inside, hchars, hrest⟩ | ⟨more, hcs, -⟩
  · cases inside with
    | nil =>
      rw [List.append_nil] at hchars
      rw [read?_eq_some_iff.2 ⟨by rw [hchars, List.append_nil], hn⟩] at h
      cases h
    | cons x inside =>
      -- The parenthesis would be inside the placeholder, behind its first character.
      cases hrest
      refine paren_not_mem_tail_chars hn ?_
      rw [hchars]
      simp
  · rw [read?_eq_some_iff.2 ⟨hcs, hn⟩] at h
    cases h

theorem pieces_cons_of_none {c : Char} {cs : List Char} (h : read? (c :: cs) = none) :
    pieces (c :: cs) = .char c :: pieces cs := by
  rw [pieces]
  split
  · rename_i h'
    rw [h] at h'
    cases h'
  · rfl

theorem read?_cons_of_ne {c : Char} (hc : c ≠ '(') (cs : List Char) : read? (c :: cs) = none := by
  rw [read?, opening, Text.after?_cons_of_ne (Ne.symm hc)]

/-- Where no parenthesis opens there is no placeholder, whatever follows. -/
theorem pieces_append_of_notMem {run : List Char} (h : '(' ∉ run) (rest : List Char) :
    pieces (run ++ rest) = run.map .char ++ pieces rest := by
  induction run with
  | nil => rfl
  | cons c run ih =>
    have hc : c ≠ '(' := Ne.symm (List.ne_of_not_mem_cons h)
    rw [List.cons_append, pieces_cons_of_none (read?_cons_of_ne hc _), ih (List.not_mem_of_not_mem_cons h)]
    rfl

/-- **The parts of a line that starts with a placeholder.** -/
theorem pieces_chars_append {name : String} (hn : IsName name) (behind : List Char) :
    pieces (chars name ++ behind) = .hole name :: pieces behind := by
  have hread : read? (chars name ++ behind) = some (name, behind) := read?_eq_some_iff.2 ⟨rfl, hn⟩
  rw [show chars name ++ behind = '(' :: ((chars name).tail ++ behind) from rfl] at hread ⊢
  rw [pieces]
  split
  · rename_i h
    rw [hread] at h
    cases h
    rfl
  · rename_i h
    rw [hread] at h
    cases h

/-- **Nothing in front of an opening parenthesis reaches behind it.** -/
theorem pieces_append_paren (before rest : List Char) :
    pieces (before ++ '(' :: rest) = pieces before ++ pieces ('(' :: rest) := by
  fun_induction pieces before with
  | case1 => rfl
  | case2 c cs name behind h ih =>
    obtain ⟨hcs, hn⟩ := read?_eq_some_iff.1 h
    rw [hcs, List.append_assoc, pieces_chars_append hn, ih]
    rfl
  | case3 c cs h ih =>
    rw [List.cons_append, pieces_cons_of_none (read?_append_paren_eq_none h rest), ih]
    rfl

theorem pieces_append_chars {name : String} (hn : IsName name) (before behind : List Char) :
    pieces (before ++ (chars name ++ behind)) = pieces before ++ .hole name :: pieces behind := by
  rw [← pieces_chars_append hn]
  exact pieces_append_paren before ((chars name).tail ++ behind)

theorem ofList_addressChars (address : UInt32) :
    String.ofList (addressChars address) = "(" ++ toString address.toNat ++ ")" := by
  apply String.toList_inj.1
  simp [addressChars]

theorem fill_hole_of_some {address? : String → Option UInt32} {name : String} {address : UInt32}
    (ha : address? name = some address) : (Piece.hole name).fill address? = addressChars address := by
  rw [Piece.fill, ha]
  rfl

theorem fill_hole_of_none {address? : String → Option UInt32} {name : String} (ha : address? name = none) :
    (Piece.hole name).fill address? = chars name := by
  rw [Piece.fill, ha]
  rfl

/-- **A placeholder with an address is filled**, and both sides of it as lines of their own. -/
theorem fillLine_of_split {address? : String → Option UInt32} {line before name behind : String} {address : UInt32}
    (h : Split line before name behind) (ha : address? name = some address) :
    fillLine address? line =
      fillLine address? before ++ "(" ++ toString address.toNat ++ ")" ++ fillLine address? behind := by
  rw [fillLine, h.toList_eq, pieces_append_chars h.isName, List.flatMap_append, List.flatMap_cons,
    fill_hole_of_some ha, String.ofList_append, String.ofList_append, ofList_addressChars, fillLine, fillLine]
  simp only [String.append_assoc]

end Wordcode.Placeholder
