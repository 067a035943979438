import Wordcode.Proofs.Listing.Elements
import Wordcode.Proofs.Outcome
/-!
# Proofs.Listing.Places — where in its text a listing's elements stand

The bytes in front of a cursor and those behind it are always as many as the text has (`extent`), so a cursor is a place
between two characters (`In`), and each element spans the characters that it is written with (`standsIn_of_tokens`), one
behind the other (`pairwise_tokens`).  An error of the grammar points at one place (`isValid_of_tokens_eq_error`).  An
element starts and stops in front of an ASCII character, whatever characters are in it (`Cut`).
-/
namespace Wordcode.Listing

open Text (byteLen)

namespace Cursor

/-- The bytes in front of a cursor and behind it. -/
def extent (c : Cursor) : Nat := c.pos + byteLen c.rest

theorem extent_skipWhile (p : Char → Bool) (c : Cursor) : (c.skipWhile p).extent = c.extent := by
  have hrest := congrArg byteLen (List.takeWhile_append_dropWhile (p := p) (l := c.rest))
  rw [Text.byteLen_append] at hrest
  simp only [extent, skipWhile]
  omega

theorem extent_skipSpace (c : Cursor) : c.skipSpace.extent = c.extent := extent_skipWhile isSpace c

theorem extent_expect? {d : Char} {c e : Cursor} (h : c.expect? d = some e) : e.extent = c.extent := by
  unfold expect? at h
  split at h
  · cases h
  · rename_i x rest hr
    split at h
    · cases h
      simp only [extent, hr, Text.byteLen_cons]
      omega
    · cases h

theorem extent_name? {c e : Cursor} {t : Token} (h : c.name? = some (t, e)) :
    e.extent = c.extent ∧ t.span = ⟨c.pos, e.pos⟩ := by
  obtain ⟨inner, hi, h⟩ := Option.bind_eq_some_iff.1 h
  obtain ⟨behind, hb, h⟩ := Option.bind_eq_some_iff.1 h
  cases h
  exact ⟨by rw [extent_expect? hb, extent_skipWhile, extent_expect? hi], rfl⟩

theorem extent_integer? {c e : Cursor} {t : Token} (h : c.integer? = some (t, e)) :
    e.extent = c.extent ∧ t.span = ⟨c.pos, e.pos⟩ := by
  unfold integer? at h
  simp only at h
  have hdigits : ((c.expect? '-').getD c).extent = c.extent := by
    cases hsign : c.expect? '-' with
    | none => rfl
    | some x => exact extent_expect? hsign
  split at h
  · cases h
  · cases h
    exact ⟨by rw [extent_skipWhile, hdigits], rfl⟩

theorem extent_token? {c e : Cursor} {t : Token} (h : c.token? = some (t, e)) :
    e.extent = c.extent ∧ t.span = ⟨c.pos, e.pos⟩ := by
  unfold token? at h
  cases hn : c.name? with
  | some x => rw [hn] at h; cases h; exact extent_name? hn
  | none => rw [hn] at h; exact extent_integer? h

/-- **The cursor is a place in the text.** -/
def In (text : String) (c : Cursor) : Prop := ∃ front, text.toList = front ++ c.rest ∧ byteLen front = c.pos

theorem in_start (text : String) : (start text).In text := ⟨[], rfl, rfl⟩

/-- Reading on leads to a place in the same text. -/
theorem In.of_rest {text : String} {c e : Cursor} (h : c.In text) {run : List Char} (hrest : c.rest = run ++ e.rest)
    (hextent : e.extent = c.extent) : e.In text := by
  obtain ⟨front, htext, hpos⟩ := h
  refine ⟨front ++ run, by rw [htext, hrest, List.append_assoc], ?_⟩
  simp only [extent, hrest, Text.byteLen_append] at hextent ⊢
  omega

theorem In.skipSpace {text : String} {c : Cursor} (h : c.In text) : c.skipSpace.In text := by
  obtain ⟨b, -, hrest⟩ := c.rest_eq_append_skipSpace
  exact h.of_rest hrest c.extent_skipSpace

theorem In.expect? {text : String} {c e : Cursor} (h : c.In text) {d : Char} (he : c.expect? d = some e) :
    e.In text :=
  h.of_rest (show c.rest = [d] ++ e.rest from expect?_eq_some he) (extent_expect? he)

theorem In.token? {text : String} {c e : Cursor} (h : c.In text) {t : Token} (ht : c.token? = some (t, e)) :
    e.In text :=
  h.of_rest (valid_of_token? ht).2 (extent_token? ht).1

end Cursor

/-- What may follow an element: a blank, a comma or a closing bracket. -/
def IsSeparator (c : Char) : Prop := isSpace c = true ∨ c = ',' ∨ c = ']'

/-- **The token spans its characters** in the text, with a separator behind them. -/
structure Token.StandsIn (text : String) (t : Token) : Prop where
  placed : ∃ front c behind, text.toList = front ++ t.lexeme.chars ++ c :: behind ∧ IsSeparator c ∧
    t.span = ⟨byteLen front, byteLen (front ++ t.lexeme.chars)⟩
  valid : t.lexeme.Valid

theorem exists_separator {e f : Cursor} {d : Char} (hd : IsSeparator d) (h : e.skipSpace.expect? d = some f) :
    ∃ c behind, e.rest = c :: behind ∧ IsSeparator c := by
  obtain ⟨b, hb, hrest⟩ := e.rest_eq_append_skipSpace
  rw [Cursor.expect?_eq_some h] at hrest
  cases b with
  | nil => exact ⟨d, f.rest, hrest, hd⟩
  | cons c b => exact ⟨c, b ++ d :: f.rest, hrest, .inl ((blank_iff _).1 hb c List.mem_cons_self)⟩

theorem standsIn_of_token? {text : String} {c e : Cursor} {t : Token} (hc : c.In text)
    (ht : c.token? = some (t, e)) (hsep : ∃ d behind, e.rest = d :: behind ∧ IsSeparator d) : t.StandsIn text := by
  obtain ⟨front, htext, hpos⟩ := hc
  obtain ⟨hvalid, hrest⟩ := Cursor.valid_of_token? ht
  obtain ⟨hextent, hspan⟩ := Cursor.extent_token? ht
  obtain ⟨d, behind, he, hd⟩ := hsep
  refine ⟨⟨front, d, behind, ?_, hd, ?_⟩, hvalid⟩
  · rw [htext, hrest, he, List.append_assoc]
  · simp only [Cursor.extent, hrest, Text.byteLen_append] at hextent
    rw [hspan, Text.byteLen_append, Span.mk.injEq]
    omega

/-- The elements of a run that a bracket ends stand in the text. -/
theorem standsIn_of_elements {text : String} (back c : Cursor) (hc : c.In text) {f : Cursor}
    (hclose : (elements back c).stop.skipSpace.expect? ']' = some f) :
    ∀ t ∈ (elements back c).tokens, t.StandsIn text := by
  fun_induction elements back c with
  | case1 back c h => exact fun t ht => by cases ht
  | case2 back c t e h hcomma =>
    intro u hu
    rw [List.mem_singleton.1 hu]
    exact standsIn_of_token? hc.skipSpace h (exists_separator (.inr (.inr rfl)) hclose)
  | case3 back c t e h g hcomma more ih =>
    intro u hu
    rcases List.mem_cons.1 hu with rfl | hu
    · exact standsIn_of_token? hc.skipSpace h (exists_separator (.inr (.inl rfl)) hcomma)
    · exact ih ((hc.skipSpace.token? h).skipSpace.expect? hcomma) hclose u hu

/-- **Every element of a listing stands in it.** -/
theorem standsIn_of_tokens {text : String} {ts : List Token} (h : tokens text = .ok ts) :
    ∀ t ∈ ts, t.StandsIn text := by
  unfold tokens at h
  split at h
  · cases h
  rename_i inner hopen
  simp only at h
  split at h
  · cases h
  rename_i behind hclose
  split at h
  · cases h
    exact standsIn_of_elements inner inner ((Cursor.in_start text).skipSpace.expect? hopen) hclose
  · cases h

/-- An error of the grammar points at one place. -/
theorem empty_span_of_tokens {text : String} {e : Error} (h : tokens text = .error e) :
    e.span.start = e.span.stop := by
  unfold tokens at h
  split at h
  · cases h
    rfl
  simp only at h
  split at h
  · cases h
    unfold Scan.error
    split <;> rfl
  · split at h
    · cases h
    · cases h
      rfl

/-! ## Places between characters -/

theorem utf8ByteSize_eq (text : String) : text.utf8ByteSize = byteLen text.toList := by
  rw [← Text.size_utf8Encode, ← String.size_toByteArray, ← String.toByteArray_ofList, String.ofList_toList]

theorem isValid_byteLen {text : String} {front behind : List Char} (h : text.toList = front ++ behind) :
    String.Pos.Raw.IsValid text ⟨byteLen front⟩ := by
  refine String.Pos.Raw.isValid_iff_exists_append.2 ⟨String.ofList front, String.ofList behind, ?_, ?_⟩
  · rw [← String.ofList_append, ← h, String.ofList_toList]
  · rw [String.rawEndPos, ← String.size_toByteArray, String.toByteArray_ofList, Text.size_utf8Encode]

namespace Cursor

variable {text : String} {c e : Cursor} {t : Token}

theorem In.isValid (h : c.In text) : String.Pos.Raw.IsValid text ⟨c.pos⟩ := by
  obtain ⟨front, htext, hpos⟩ := h
  exact hpos ▸ isValid_byteLen htext

theorem pos_le_of_rest {run : List Char} (hrest : c.rest = run ++ e.rest) (hextent : e.extent = c.extent) :
    c.pos ≤ e.pos := by
  simp only [extent, hrest, Text.byteLen_append] at hextent
  omega

theorem pos_le_skipSpace (c : Cursor) : c.pos ≤ c.skipSpace.pos := by
  obtain ⟨b, -, hrest⟩ := c.rest_eq_append_skipSpace
  exact pos_le_of_rest hrest c.extent_skipSpace

theorem pos_le_expect? {d : Char} (h : c.expect? d = some e) : c.pos ≤ e.pos :=
  pos_le_of_rest (show c.rest = [d] ++ e.rest from expect?_eq_some h) (extent_expect? h)

theorem pos_le_token? (h : c.token? = some (t, e)) : c.pos ≤ e.pos :=
  pos_le_of_rest (valid_of_token? h).2 (extent_token? h).1

end Cursor

section

variable {text : String} {ts : List Token}

theorem Token.StandsIn.start_le_stop {t : Token} (h : t.StandsIn text) : t.span.start ≤ t.span.stop := by
  obtain ⟨⟨front, c, behind, -, -, hspan⟩, -⟩ := h
  rw [hspan, Text.byteLen_append]
  exact Nat.le_add_right _ _

theorem Token.StandsIn.isValid {t : Token} (h : t.StandsIn text) :
    String.Pos.Raw.IsValid text ⟨t.span.start⟩ ∧ String.Pos.Raw.IsValid text ⟨t.span.stop⟩ := by
  obtain ⟨⟨front, c, behind, htext, -, hspan⟩, -⟩ := h
  rw [hspan]
  exact ⟨isValid_byteLen (htext.trans (List.append_assoc _ _ _)), isValid_byteLen htext⟩

/-- The elements of a run start behind the place where the run does, each behind the end of the one before. -/
theorem pairwise_elements (back c : Cursor) :
    (∀ t ∈ (elements back c).tokens, c.pos ≤ t.span.start) ∧
      (elements back c).tokens.Pairwise fun t u => t.span.stop ≤ u.span.start := by
  fun_induction elements back c with
  | case1 back c h => exact ⟨fun t ht => (by cases ht), .nil⟩
  | case2 back c t e h hcomma =>
    refine ⟨fun u hu => ?_, List.pairwise_singleton _ _⟩
    rw [List.mem_singleton.1 hu, (Cursor.extent_token? h).2]
    exact c.pos_le_skipSpace
  | case3 back c t e h f hcomma more ih =>
    obtain ⟨hfrom, hpairwise⟩ := ih
    -- blanks, the element, blanks and a comma: the rest of the run starts behind all of them
    have hc := c.pos_le_skipSpace
    have ht := Cursor.pos_le_token? h
    have hf := Nat.le_trans e.pos_le_skipSpace (Cursor.pos_le_expect? hcomma)
    have hspan := (Cursor.extent_token? h).2
    refine ⟨fun u hu => ?_, List.pairwise_cons.2 ⟨fun u hu => ?_, hpairwise⟩⟩
    · rcases List.mem_cons.1 hu with rfl | hu
      · rw [hspan]
        exact hc
      · exact Nat.le_trans (by omega) (hfrom u hu)
    · rw [hspan]
      exact Nat.le_trans hf (hfrom u hu)

/-- **The elements of a listing stand one behind the other.** -/
theorem pairwise_tokens (h : tokens text = .ok ts) : ts.Pairwise fun t u => t.span.stop ≤ u.span.start := by
  unfold tokens at h
  split at h
  · cases h
  rename_i inner hopen
  simp only at h
  split at h
  · cases h
  split at h
  · cases h
    exact (pairwise_elements inner inner).2
  · cases h

theorem Token.start_of_nameless {t : Token} {pos : Nat} (h : t.nameless = some pos) : t.span.start = pos := by
  unfold nameless at h
  split at h
  · exact Option.some.inj h
  · cases h

/-- A run of elements stops at a place in the text, and where it last found no name is one too. -/
theorem in_elements (back c : Cursor) (hback : back.In text) (hc : c.In text) :
    (elements back c).stop.In text ∧ ∀ pos ∈ (elements back c).nameless, String.Pos.Raw.IsValid text ⟨pos⟩ := by
  have hnameless : ∀ {c e : Cursor} {t : Token}, c.In text → c.token? = some (t, e) →
      ∀ pos ∈ t.nameless, String.Pos.Raw.IsValid text ⟨pos⟩ := fun hc ht pos hpos => by
    rw [← Token.start_of_nameless hpos, (Cursor.extent_token? ht).2]
    exact hc.isValid
  fun_induction elements back c with
  | case1 back c h =>
    refine ⟨hback, fun pos hpos => ?_⟩
    cases hpos
    exact hc.skipSpace.isValid
  | case2 back c t e h hcomma => exact ⟨hc.skipSpace.token? h, hnameless hc.skipSpace h⟩
  | case3 back c t e h f hcomma more ih =>
    have he := hc.skipSpace.token? h
    obtain ⟨hstop, hmore⟩ := ih he (he.skipSpace.expect? hcomma)
    refine ⟨hstop, fun pos hpos => ?_⟩
    have hpos : more.nameless = some pos ∨ more.nameless = none ∧ t.nameless = some pos := by simpa using hpos
    rcases hpos with hpos | ⟨-, hpos⟩
    · exact hmore pos hpos
    · exact hnameless hc.skipSpace h pos hpos

/-- **An error of the grammar points at a place in the text.** -/
theorem isValid_of_tokens_eq_error {e : Error} (h : tokens text = .error e) :
    String.Pos.Raw.IsValid text ⟨e.span.start⟩ := by
  have hzero : String.Pos.Raw.IsValid text ⟨0⟩ := (Cursor.in_start text).isValid
  unfold tokens at h
  split at h
  · cases h
    exact hzero
  rename_i inner hopen
  have hinner := (Cursor.in_start text).skipSpace.expect? hopen
  obtain ⟨hstop, hnameless⟩ := in_elements inner inner hinner hinner
  simp only at h
  split at h
  · cases h
    unfold Scan.error
    split
    · rename_i pos hpos
      exact hnameless pos hpos
    · exact hzero
  · rename_i behind hclose
    split at h
    · cases h
    · cases h
      exact (hstop.skipSpace.expect? hclose).skipSpace.isValid

end

/-! ## Places in front of ASCII characters -/

/-- The place is in front of a character of one byte, or at the end of the text. -/
def Cut (text : List Char) (pos : Nat) : Prop :=
  ∃ n ≤ text.length, byteLen (text.take n) = pos ∧ ∀ c ∈ text[n]?, c.utf8Size = 1

theorem cut_of_append {text front behind : List Char} (htext : text = front ++ behind)
    (h : ∀ c ∈ behind.head?, c.utf8Size = 1) : Cut text (byteLen front) := by
  refine ⟨front.length, ?_, ?_, fun c hc => h c ?_⟩
  · rw [htext, List.length_append]
    omega
  · rw [htext, List.take_left' rfl]
  · rwa [htext, List.getElem?_append_right (Nat.le_refl _), Nat.sub_self, ← List.head?_eq_getElem?] at hc

theorem utf8Size_of_isDigit {c : Char} (h : c.isDigit = true) : c.utf8Size = 1 := by
  have hle : c.val ≤ '9'.val := by simpa using (Bool.and_eq_true_iff.1 h).2
  exact Char.utf8Size_eq_one_iff.2 (UInt32.le_trans hle (by decide))

theorem utf8Size_of_isSpace {c : Char} (h : isSpace c = true) : c.utf8Size = 1 := by
  have hc : c = ' ' ∨ c = '\t' ∨ c = '\r' ∨ c = '\n' := by simpa [isSpace, or_assoc] using h
  rcases hc with rfl | rfl | rfl | rfl <;> rfl

theorem IsSeparator.utf8Size {c : Char} (h : IsSeparator c) : c.utf8Size = 1 := by
  rcases h with h | rfl | rfl
  · exact utf8Size_of_isSpace h
  · rfl
  · rfl

theorem Lexeme.Valid.utf8Size_head {l : Lexeme} (hv : l.Valid) (rest : List Char) :
    ∀ c ∈ (l.chars ++ rest).head?, c.utf8Size = 1 := by
  intro c hc
  cases hv with
  | name => cases hc; rfl
  | @integer text digits hne hd ht =>
    obtain ⟨d, ds, rfl⟩ := List.exists_cons_of_ne_nil hne
    rcases ht with ht | ht
    · rw [Lexeme.chars, ht] at hc
      cases hc
      exact utf8Size_of_isDigit (hd c List.mem_cons_self)
    · rw [Lexeme.chars, ht] at hc
      cases hc
      rfl

theorem Token.StandsIn.cut_start {text : String} {t : Token} (h : t.StandsIn text) :
    Cut text.toList t.span.start := by
  obtain ⟨⟨front, c, behind, htext, -, hspan⟩, hvalid⟩ := h
  rw [hspan]
  exact cut_of_append (htext.trans (List.append_assoc _ _ _)) (hvalid.utf8Size_head _)

theorem Token.StandsIn.cut_stop {text : String} {t : Token} (h : t.StandsIn text) :
    Cut text.toList t.span.stop := by
  obtain ⟨⟨front, c, behind, htext, hc, hspan⟩, -⟩ := h
  rw [hspan]
  exact cut_of_append htext fun d hd => by cases hd; exact hc.utf8Size

theorem cut_zero_of_tokens {text : String} {ts : List Token} (h : tokens text = .ok ts) : Cut text.toList 0 := by
  refine cut_of_append (List.nil_append _).symm fun c hc => ?_
  obtain ⟨lead, body, trail, hlead, -, -, htext⟩ := isArray_of_tokens h
  rw [htext] at hc
  cases lead with
  | nil => cases hc; rfl
  | cons d lead =>
    cases hc
    exact utf8Size_of_isSpace ((blank_iff _).1 hlead c List.mem_cons_self)

end Wordcode.Listing
