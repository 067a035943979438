import Wordcode.Proofs.Listing.Grammar
import Wordcode.Proofs.Text
/-!
# Proofs.Listing.Elements — reading elements accepts exactly the arrays

Reading stops as late as it can and gives a comma back when no element follows it.  Neither matters to an array: a run
of digits ends at a blank, a comma or a bracket, and the bracket ends the elements (`elements_of_body`).  What was read
is a body in turn (`body_of_elements`), so `tokens` reads the arrays (`tokens_of_isArray`) and nothing else
(`isArray_of_tokens`).
-/
namespace Wordcode.Listing

open Text (StopsAt takeWhile_append_of_stopsAt dropWhile_append_of_stopsAt all_takeWhile_mem)

namespace Cursor

theorem expect?_eq_some {d : Char} {c e : Cursor} (h : c.expect? d = some e) : c.rest = d :: e.rest := by
  unfold expect? at h
  split at h
  · cases h
  · rename_i x rest hr
    split at h
    · rename_i hx
      cases h
      rw [hr, hx]
    · cases h

theorem expect?_of_rest {d : Char} {c : Cursor} {rest : List Char} (h : c.rest = d :: rest) :
    ∃ e, c.expect? d = some e ∧ e.rest = rest := by
  refine ⟨⟨c.pos + d.utf8Size, rest⟩, ?_, rfl⟩
  rw [expect?, h]
  simp

theorem expect?_eq_none {d x : Char} {c : Cursor} {rest : List Char} (h : c.rest = x :: rest) (hx : x ≠ d) :
    c.expect? d = none := by
  rw [expect?, h]
  simp [hx]

theorem rest_eq_append_skipSpace (c : Cursor) : ∃ b, Blank b ∧ c.rest = b ++ c.skipSpace.rest := by
  refine ⟨c.rest.takeWhile isSpace, (blank_iff _).2 (all_takeWhile_mem isSpace _), ?_⟩
  exact List.takeWhile_append_dropWhile.symm

theorem rest_skipSpace {c : Cursor} {b rest : List Char} (hb : Blank b) (hs : StopsAt isSpace rest)
    (h : c.rest = b ++ rest) : c.skipSpace.rest = rest := by
  show c.rest.dropWhile isSpace = rest
  rw [h, dropWhile_append_of_stopsAt ((blank_iff b).1 hb) hs]

theorem valid_of_name? {c e : Cursor} {t : Token} (h : c.name? = some (t, e)) :
    t.lexeme.Valid ∧ c.rest = t.lexeme.chars ++ e.rest := by
  obtain ⟨inner, hi, h⟩ := Option.bind_eq_some_iff.1 h
  obtain ⟨behind, hb, h⟩ := Option.bind_eq_some_iff.1 h
  cases h
  have hrest : inner.rest.dropWhile isNameChar = '"' :: e.rest := expect?_eq_some hb
  refine ⟨.name (fun x hx => ?_), ?_⟩
  · rw [String.toList_ofList] at hx
    simpa [isNameChar] using all_takeWhile_mem isNameChar _ x hx
  · rw [expect?_eq_some hi, Lexeme.chars, String.toList_ofList]
    conv => lhs; rw [← List.takeWhile_append_dropWhile (p := isNameChar) (l := inner.rest), hrest]
    simp

theorem valid_of_integer? {c e : Cursor} {t : Token} (h : c.integer? = some (t, e)) :
    t.lexeme.Valid ∧ c.rest = t.lexeme.chars ++ e.rest := by
  unfold integer? at h
  simp only at h
  split at h
  · cases h
  rename_i d ds htake
  cases h
  have hdig : ∀ x ∈ d :: ds, x.isDigit = true := by
    rw [← htake]
    exact all_takeWhile_mem Char.isDigit _
  have hrun := List.takeWhile_append_dropWhile (p := Char.isDigit) (l := ((c.expect? '-').getD c).rest)
  rw [htake] at hrun
  cases hsign : c.expect? '-' with
  | none =>
    rw [hsign] at hrun
    refine ⟨.integer (List.cons_ne_nil d ds) hdig (.inl ?_), ?_⟩
    · simp
    · simpa [Lexeme.chars, skipWhile] using hrun.symm
  | some x =>
    rw [hsign] at hrun
    refine ⟨.integer (List.cons_ne_nil d ds) hdig (.inr ?_), ?_⟩
    · simp
    · rw [expect?_eq_some hsign]
      simpa [Lexeme.chars, skipWhile] using hrun.symm

/-- **What an element was read from is the element.** -/
theorem valid_of_token? {c e : Cursor} {t : Token} (h : c.token? = some (t, e)) :
    t.lexeme.Valid ∧ c.rest = t.lexeme.chars ++ e.rest := by
  unfold token? at h
  cases hn : c.name? with
  | some x => rw [hn] at h; cases h; exact valid_of_name? hn
  | none => rw [hn] at h; exact valid_of_integer? h

theorem name?_of_rest {c : Cursor} {text : String} {rest : List Char}
    (hv : ∀ x ∈ text.toList, x ≠ '"' ∧ x ≠ '\\') (h : c.rest = (Lexeme.name text).chars ++ rest) :
    ∃ t e, c.name? = some (t, e) ∧ t.lexeme = .name text ∧ e.rest = rest := by
  have hname : ∀ x ∈ text.toList, isNameChar x = true := fun x hx => by simpa [isNameChar] using hv x hx
  have hstop : StopsAt isNameChar ('"' :: rest) := fun x hx => by cases hx; rfl
  have hc : c.rest = '"' :: (text.toList ++ '"' :: rest) := by rw [h]; simp [Lexeme.chars]
  obtain ⟨inner, hi, hir⟩ := expect?_of_rest hc
  have hskip : (inner.skipWhile isNameChar).rest = '"' :: rest := by
    show inner.rest.dropWhile isNameChar = _
    rw [hir, dropWhile_append_of_stopsAt hname hstop]
  obtain ⟨behind, hb, hbr⟩ := expect?_of_rest hskip
  refine ⟨⟨.name text, ⟨c.pos, behind.pos⟩⟩, behind, ?_, rfl, hbr⟩
  rw [name?, hi, Option.bind_eq_bind, Option.bind_some, hb, hir, takeWhile_append_of_stopsAt hname hstop,
    String.ofList_toList]
  rfl

theorem integer?_of_rest {c : Cursor} {text : String} {digits rest : List Char} (hne : digits ≠ [])
    (hd : ∀ x ∈ digits, x.isDigit = true) (ht : text.toList = digits ∨ text.toList = '-' :: digits)
    (hs : StopsAt Char.isDigit rest) (h : c.rest = (Lexeme.integer text).chars ++ rest) :
    ∃ t e, c.integer? = some (t, e) ∧ t.lexeme = .integer text ∧ e.rest = rest := by
  obtain ⟨d, ds, rfl⟩ := List.exists_cons_of_ne_nil hne
  -- The sign is taken first, so both spellings leave the same run of digits to read.
  have hrun : ∃ sign x, (c.expect? '-').map (fun _ => '-') = sign ∧ (c.expect? '-').getD c = x ∧
      x.rest = d :: ds ++ rest ∧ text.toList = sign.toList ++ d :: ds := by
    rcases ht with ht | ht
    · have hc : c.rest = d :: (ds ++ rest) := by rw [h, Lexeme.chars, ht, List.cons_append]
      have hminus : d ≠ '-' := by
        rintro rfl
        have := hd '-' (by simp)
        simp at this
      have := expect?_eq_none hc hminus
      exact ⟨none, c, by rw [this]; rfl, by rw [this]; rfl, hc, ht⟩
    · have hc : c.rest = '-' :: (d :: ds ++ rest) := by rw [h, Lexeme.chars, ht, List.cons_append]
      obtain ⟨x, hx, hxr⟩ := expect?_of_rest hc
      exact ⟨some '-', x, by rw [hx]; rfl, by rw [hx]; rfl, hxr, ht⟩
  obtain ⟨sign, x, hsign, hx, hxr, htext⟩ := hrun
  refine ⟨⟨.integer text, ⟨c.pos, (x.skipWhile Char.isDigit).pos⟩⟩, x.skipWhile Char.isDigit, ?_, rfl, ?_⟩
  · unfold integer?
    simp only [hsign, hx]
    rw [hxr, takeWhile_append_of_stopsAt hd hs]
    simp only [← htext, String.ofList_toList]
  · show x.rest.dropWhile Char.isDigit = rest
    rw [hxr, dropWhile_append_of_stopsAt hd hs]

theorem name?_eq_none {c : Cursor} {x : Char} {rest : List Char} (h : c.rest = x :: rest) (hx : x ≠ '"') :
    c.name? = none := by
  rw [name?, expect?_eq_none h hx]
  rfl

/-- **An element is read back**, whatever follows it that is no digit. -/
theorem token?_of_rest {c : Cursor} {l : Lexeme} {rest : List Char} (hv : l.Valid) (hs : StopsAt Char.isDigit rest)
    (h : c.rest = l.chars ++ rest) : ∃ t e, c.token? = some (t, e) ∧ t.lexeme = l ∧ e.rest = rest := by
  cases hv with
  | name hn =>
    obtain ⟨t, e, ht, hl, he⟩ := name?_of_rest hn h
    exact ⟨t, e, by rw [token?, ht]; rfl, hl, he⟩
  | @integer text digits hne hd ht =>
    obtain ⟨t, e, hi, hl, he⟩ := integer?_of_rest hne hd ht hs h
    refine ⟨t, e, ?_, hl, he⟩
    have hquote : ∃ x tail, c.rest = x :: tail ∧ x ≠ '"' := by
      obtain ⟨d, ds, rfl⟩ := List.exists_cons_of_ne_nil hne
      rcases ht with ht | ht
      · refine ⟨d, ds ++ rest, by rw [h, Lexeme.chars, ht, List.cons_append], ?_⟩
        rintro rfl
        have := hd '"' (by simp)
        simp at this
      · exact ⟨'-', d :: ds ++ rest, by rw [h, Lexeme.chars, ht, List.cons_append], by decide⟩
    obtain ⟨x, tail, hx, hxq⟩ := hquote
    rw [token?, name?_eq_none hx hxq]
    exact hi

theorem token?_eq_none_of_bracket {c : Cursor} {rest : List Char} (h : c.rest = ']' :: rest) : c.token? = none := by
  have hi : c.integer? = none := by
    unfold integer?
    rw [expect?_eq_none h (by decide)]
    simp [h]
  rw [token?, name?_eq_none h (by decide), hi]
  rfl

end Cursor

theorem isSpace_of_isDigit {c : Char} (h : c.isDigit = true) : isSpace c = false := by
  rw [← Bool.not_eq_true]
  intro hs
  rcases (by simpa [isSpace, or_assoc] using hs : c = ' ' ∨ c = '\t' ∨ c = '\r' ∨ c = '\n') with
    rfl | rfl | rfl | rfl <;> cases h

theorem Lexeme.Valid.stopsAt_isSpace {l : Lexeme} (hv : l.Valid) (rest : List Char) :
    StopsAt isSpace (l.chars ++ rest) := by
  cases hv with
  | name => intro c hc; cases hc; rfl
  | @integer text digits hne hd ht =>
    obtain ⟨d, ds, rfl⟩ := List.exists_cons_of_ne_nil hne
    intro c hc
    rcases ht with ht | ht
    · rw [Lexeme.chars, ht] at hc
      cases hc
      exact isSpace_of_isDigit (hd d List.mem_cons_self)
    · rw [Lexeme.chars, ht] at hc
      cases hc
      rfl

theorem Blank.stopsAt_isDigit {b : List Char} (hb : Blank b) {x : Char} (hx : x.isDigit = false) (rest : List Char) :
    StopsAt Char.isDigit (b ++ x :: rest) := by
  intro c hc
  cases b with
  | nil => cases hc; exact hx
  | cons y b =>
    cases hc
    rcases hb c List.mem_cons_self with rfl | rfl | rfl | rfl <;> rfl

/-- What one element takes off a text, the blanks in front of it included. -/
theorem token?_of_padded {l : Lexeme} {cs : List Char} (hl : Padded l cs) {x : Char} (hx : x.isDigit = false)
    {c : Cursor} {rest : List Char} (h : c.rest = cs ++ x :: rest) :
    ∃ t e, c.skipSpace.token? = some (t, e) ∧ t.lexeme = l ∧ ∃ b, Blank b ∧ e.rest = b ++ x :: rest := by
  obtain ⟨before, behind, hbefore, hbehind, hv, rfl⟩ := hl
  have hc : c.rest = before ++ (l.chars ++ (behind ++ x :: rest)) := by rw [h]; simp
  have hskip := Cursor.rest_skipSpace hbefore (hv.stopsAt_isSpace _) hc
  obtain ⟨t, e, ht, hl, he⟩ := Cursor.token?_of_rest hv (hbehind.stopsAt_isDigit hx rest) hskip
  exact ⟨t, e, ht, hl, behind, hbehind, he⟩

/-- What one element was read from is the element with the blanks in front of it. -/
theorem padded_of_token? {c e : Cursor} {t : Token} (h : c.skipSpace.token? = some (t, e)) :
    ∃ cs, c.rest = cs ++ e.rest ∧ ∀ b, Blank b → Padded t.lexeme (cs ++ b) := by
  obtain ⟨before, hbefore, hc⟩ := c.rest_eq_append_skipSpace
  obtain ⟨hv, hrest⟩ := Cursor.valid_of_token? h
  refine ⟨before ++ t.lexeme.chars, ?_, fun b hb => ⟨before, b, hbefore, hb, hv, rfl⟩⟩
  rw [hc, hrest, List.append_assoc]

theorem elements_eq (back c : Cursor) :
    elements back c = match c.skipSpace.token? with
      | none => ⟨[], back, some c.skipSpace.pos⟩
      | some (t, e) =>
        match e.skipSpace.expect? ',' with
        | none => ⟨[t], e, t.nameless⟩
        | some f =>
          ⟨t :: (elements e f).tokens, (elements e f).stop, (elements e f).nameless <|> t.nameless⟩ := by
  rw [elements]
  split
  · rename_i h
    rw [h]
  · rename_i h
    rw [h]
    split
    · rename_i h'
      simp only [h']
    · rename_i h'
      simp only [h']

theorem elements_of_none (back : Cursor) {c : Cursor} (h : c.skipSpace.token? = none) :
    (elements back c).tokens = [] ∧ (elements back c).stop = back := by
  rw [elements_eq, h]
  exact ⟨rfl, rfl⟩

theorem elements_of_last (back : Cursor) {c e : Cursor} {t : Token} (h : c.skipSpace.token? = some (t, e))
    (hcomma : e.skipSpace.expect? ',' = none) :
    (elements back c).tokens = [t] ∧ (elements back c).stop = e := by
  rw [elements_eq, h]
  simp only [hcomma, and_self]

theorem elements_of_more (back : Cursor) {c e f : Cursor} {t : Token} (h : c.skipSpace.token? = some (t, e))
    (hcomma : e.skipSpace.expect? ',' = some f) :
    (elements back c).tokens = t :: (elements e f).tokens ∧ (elements back c).stop = (elements e f).stop := by
  rw [elements_eq back c, h]
  simp only [hcomma, and_self]

/-- The elements of a list of tokens. -/
def lexemes (ts : List Token) : List Lexeme := ts.map Token.lexeme

/-- The elements of a body that has any are read, up to blanks in front of the bracket. -/
theorem elements_of_nonempty {ls : List Lexeme} {body : List Char} (hb : Body ls body) (hne : ls ≠ [])
    {tail : List Char} (back : Cursor) {c : Cursor} (h : c.rest = body ++ ']' :: tail) :
    lexemes (elements back c).tokens = ls ∧ ∃ b, Blank b ∧ (elements back c).stop.rest = b ++ ']' :: tail := by
  induction hb generalizing back c with
  | none => exact absurd rfl hne
  | last hl =>
    obtain ⟨t, e, ht, rfl, b, hb, he⟩ := token?_of_padded hl (by decide) h
    have hskip := Cursor.rest_skipSpace hb (fun x hx => by cases hx; rfl) he
    obtain ⟨htokens, hstop⟩ := elements_of_last back ht (Cursor.expect?_eq_none hskip (by decide))
    exact ⟨by rw [htokens]; rfl, b, hb, by rw [hstop, he]⟩
  | @more l m ls cs rest hl hm ih =>
    have h' : c.rest = cs ++ ',' :: (rest ++ ']' :: tail) := by rw [h]; simp
    obtain ⟨t, e, ht, rfl, b, hb, he⟩ := token?_of_padded hl (by decide) h'
    have hskip := Cursor.rest_skipSpace hb (fun x hx => by cases hx; rfl) he
    obtain ⟨f, hf, hfr⟩ := Cursor.expect?_of_rest hskip
    obtain ⟨htokens, hstop⟩ := elements_of_more back ht hf
    obtain ⟨hls, hrest⟩ := ih (List.cons_ne_nil m ls) e hfr
    refine ⟨?_, ?_⟩
    · rw [htokens, lexemes, List.map_cons]
      exact congrArg _ hls
    · rwa [hstop]

/-- **What elements were read from is a body**, once the blanks behind it are taken in. -/
theorem body_of_elements (back c : Cursor) :
    ((elements back c).tokens = [] ∧ (elements back c).stop = back) ∨
    ((elements back c).tokens ≠ [] ∧ ∃ cs, c.rest = cs ++ (elements back c).stop.rest ∧
      ∀ b, Blank b → Body (lexemes (elements back c).tokens) (cs ++ b)) := by
  fun_induction elements back c with
  | case1 back c h => exact .inl ⟨rfl, rfl⟩
  | case2 back c t e h hcomma =>
    obtain ⟨cs, hc, hpad⟩ := padded_of_token? h
    exact .inr ⟨List.cons_ne_nil _ _, cs, hc, fun b hb => .last (hpad b hb)⟩
  | case3 back c t e h f hcomma more ih =>
    obtain ⟨cs, hc, hpad⟩ := padded_of_token? h
    refine .inr ⟨List.cons_ne_nil _ _, ?_⟩
    rcases ih with ⟨hnil, hstop⟩ | ⟨hne, cs', hf, hbody⟩
    · -- The comma is given back: the run ends with the element in front of it.
      refine ⟨cs, by rw [hc, ← hstop], fun b hb => ?_⟩
      show Body (t.lexeme :: lexemes (elements e f).tokens) (cs ++ b)
      rw [hnil]
      exact .last (hpad b hb)
    · obtain ⟨b', hb', he⟩ := e.rest_eq_append_skipSpace
      refine ⟨cs ++ b' ++ ',' :: cs', ?_, fun b hb => ?_⟩
      · show c.rest = cs ++ b' ++ ',' :: cs' ++ (elements e f).stop.rest
        rw [hc, he, Cursor.expect?_eq_some hcomma, hf]
        simp
      · show Body (t.lexeme :: lexemes (elements e f).tokens) (cs ++ b' ++ ',' :: cs' ++ b)
        obtain ⟨u, us, hus⟩ := List.exists_cons_of_ne_nil hne
        have hrest := hbody b hb
        rw [hus] at hrest ⊢
        rw [List.append_assoc, List.cons_append]
        exact .more (hpad b' hb') hrest

/-- A text that has elements is an array of them. -/
theorem isArray_of_tokens {text : String} {ts : List Token} (h : tokens text = .ok ts) :
    IsArray text.toList (lexemes ts) := by
  unfold tokens at h
  split at h
  · cases h
  rename_i inner hopen
  simp only at h
  split at h
  · cases h
  rename_i behind hclose
  split at h
  · rename_i hend
    cases h
    obtain ⟨lead, hlead, hstart⟩ := (Cursor.start text).rest_eq_append_skipSpace
    obtain ⟨b, hb, hstop⟩ := (elements inner inner).stop.rest_eq_append_skipSpace
    obtain ⟨trail, htrail, hbehind⟩ := behind.rest_eq_append_skipSpace
    rw [hend, List.append_nil] at hbehind
    rw [Cursor.expect?_eq_some hclose, hbehind] at hstop
    have htext : text.toList = lead ++ '[' :: inner.rest := by
      rw [← Cursor.expect?_eq_some hopen, ← hstart]
      rfl
    rcases body_of_elements inner inner with ⟨hnil, hback⟩ | ⟨-, cs, hcs, hbody⟩
    · rw [hback] at hstop
      refine ⟨lead, b, trail, hlead, htrail, ?_, ?_⟩
      · rw [hnil]
        exact .none hb
      · rw [htext, hstop]
        simp
    · refine ⟨lead, cs ++ b, trail, hlead, htrail, hbody b hb, ?_⟩
      rw [htext, hcs, hstop]
      simp
  · cases h

/-- The elements of any body are read, up to blanks in front of the bracket. -/
theorem elements_of_body {ls : List Lexeme} {body tail : List Char} (hb : Body ls body) {c : Cursor}
    (h : c.rest = body ++ ']' :: tail) :
    lexemes (elements c c).tokens = ls ∧ ∃ b, Blank b ∧ (elements c c).stop.rest = b ++ ']' :: tail := by
  cases ls with
  | nil =>
    cases hb with
    | none hb =>
      have hnone := Cursor.rest_skipSpace hb (fun x hx => by cases hx; rfl) h
      obtain ⟨htokens, hstop⟩ := elements_of_none c (Cursor.token?_eq_none_of_bracket hnone)
      exact ⟨by rw [htokens]; rfl, body, hb, by rw [hstop, h]⟩
  | cons l ls => exact elements_of_nonempty hb (List.cons_ne_nil l ls) c h

/-- An array has its elements. -/
theorem tokens_of_isArray {text : String} {ls : List Lexeme} (h : IsArray text.toList ls) :
    ∃ ts, tokens text = .ok ts ∧ lexemes ts = ls := by
  obtain ⟨lead, body, trail, hlead, htrail, hbody, htext⟩ := h
  have hstart : (Cursor.start text).rest = lead ++ '[' :: (body ++ ']' :: trail) := by
    show text.toList = _
    rw [htext]
    simp
  have hskip := Cursor.rest_skipSpace hlead (fun x hx => by cases hx; rfl) hstart
  obtain ⟨inner, hopen, hinner⟩ := Cursor.expect?_of_rest hskip
  obtain ⟨hls, b, hb, hstop⟩ := elements_of_body hbody hinner
  have hskip' := Cursor.rest_skipSpace hb (fun x hx => by cases hx; rfl) hstop
  obtain ⟨behind, hclose, hbehind⟩ := Cursor.expect?_of_rest hskip'
  have hend : behind.skipSpace.rest = [] :=
    Cursor.rest_skipSpace htrail (fun x hx => by cases hx) (by rw [hbehind, List.append_nil])
  refine ⟨(elements inner inner).tokens, ?_, hls⟩
  rw [tokens, hopen]
  simp only
  rw [hclose]
  simp only
  rw [if_pos hend]

end Wordcode.Listing
