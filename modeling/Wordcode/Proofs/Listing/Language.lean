import Wordcode.Proofs.Listing.Elements
import Wordcode.Proofs.Outcome
/-!
# Proofs.Listing.Language — reading a listing accepts exactly its language

Each reader of a name, a byte or a signature is an element of the grammar at an index; a word or a call is then read
exactly where its elements stand (`spells_of_word`, `word_of_spells`), words exactly from a spelling
(`words_eq_ok_iff`), and a listing exactly from an array that spells it (`parse_eq_ok_iff_isArray`).
-/
namespace Wordcode

theorem Signature.parse_eq_ok_iff (text : String) (s : Signature) : Signature.parse text = .ok s ↔ text = s.text := by
  unfold Signature.parse Signature.text
  constructor
  · intro h
    split at h
    · rename_i s' hs
      cases h
      rw [chars_of_ofChars? hs, String.ofList_toList]
    · cases h
  · rintro rfl
    rw [String.toList_ofList, ofChars?_chars]

namespace Listing

theorem Token.asByte_eq_ok_iff (t : Token) (b : UInt8) : t.asByte = .ok b ↔ t.lexeme.IsByte b := by
  unfold Token.asByte
  constructor
  · intro h
    split at h
    · cases h
    rename_i text hl
    split at h
    · rename_i b' hb
      cases h
      obtain ⟨hne, hd, hv⟩ := Text.byte?_eq_some_iff.1 hb
      rw [hl]
      exact .integer hne hd hv
    · cases h
  · intro h
    generalize t.lexeme = l at h ⊢
    cases h with
    | integer hne hd hv =>
      simp only
      rw [Text.byte?_eq_some_iff.2 ⟨hne, hd, hv⟩]

theorem Token.asName_eq_ok_iff (t : Token) (role : Role) (text : String) :
    t.asName role = .ok text ↔ t.lexeme = .name text := by
  unfold Token.asName
  cases t.lexeme with
  | name text' => simp
  | integer text' => simp [fail]

theorem tokenAt_eq_ok_iff (ts : List Token) (index : Nat) (t : Token) :
    tokenAt ts index = .ok t ↔ ts[index]? = some t := by
  unfold tokenAt
  cases ts[index]? with
  | none => simp
  | some t' => simp

theorem getElem?_eq_some_iff_drop {α : Type} (l : List α) (index : Nat) (a : α) :
    l[index]? = some a ↔ l.drop index = a :: l.drop (index + 1) := by
  constructor
  · intro h
    obtain ⟨hlt, rfl⟩ := List.getElem?_eq_some_iff.1 h
    exact List.drop_eq_getElem_cons hlt
  · intro h
    have hhead := congrArg List.head? h
    rwa [List.head?_drop] at hhead

theorem byteAt_eq_ok_iff (ts : List Token) (index : Nat) (b : UInt8) :
    byteAt ts index = .ok b ↔
      ∃ l, (lexemes ts).drop index = l :: (lexemes ts).drop (index + 1) ∧ l.IsByte b := by
  simp [byteAt, bind_eq_ok_iff, tokenAt_eq_ok_iff, Token.asByte_eq_ok_iff, ← getElem?_eq_some_iff_drop, lexemes]

theorem nameAt_eq_ok_iff (ts : List Token) (index : Nat) (role : Role) (text : String) :
    nameAt ts index role = .ok text ↔
      (lexemes ts).drop index = .name text :: (lexemes ts).drop (index + 1) := by
  simp [nameAt, bind_eq_ok_iff, tokenAt_eq_ok_iff, Token.asName_eq_ok_iff, ← getElem?_eq_some_iff_drop, lexemes]

theorem signatureAt_eq_ok_iff (ts : List Token) (index : Nat) (s : Signature) :
    signatureAt ts index = .ok s ↔
      (lexemes ts).drop index = .name s.text :: (lexemes ts).drop (index + 1) := by
  rw [← getElem?_eq_some_iff_drop, lexemes, List.getElem?_map, Option.map_eq_some_iff]
  simp only [signatureAt, bind_eq_ok_iff, tokenAt_eq_ok_iff, Token.asName_eq_ok_iff]
  constructor
  · rintro ⟨t, ht, text, hl, h⟩
    split at h
    · rename_i s' hs
      cases h
      rw [(Signature.parse_eq_ok_iff text s).1 hs] at hl
      exact ⟨t, ht, hl⟩
    · cases h
  · rintro ⟨t, ht, hl⟩
    refine ⟨t, ht, s.text, hl, ?_⟩
    rw [(Signature.parse_eq_ok_iff s.text s).2 rfl]

/-- **Bytes are read exactly where their elements stand.** -/
theorem bytesAt_eq_ok_iff (ts : List Token) (index count : Nat) (bs : List UInt8) :
    bytesAt ts index count = .ok bs ↔
      bs.length = count ∧ ∃ ls, List.Forall₂ Lexeme.IsByte bs ls ∧
        (lexemes ts).drop index = ls ++ (lexemes ts).drop (index + count) := by
  induction count generalizing index bs with
  | zero =>
    constructor
    · intro h
      cases h
      exact ⟨rfl, [], .nil, rfl⟩
    · rintro ⟨hlen, -⟩
      rw [List.length_eq_zero_iff.1 hlen]
      rfl
  | succ count ih =>
    simp only [bytesAt, bind_eq_ok_iff, byteAt_eq_ok_iff, ih]
    rw [show index + 1 + count = index + (count + 1) by omega]
    constructor
    · rintro ⟨b, ⟨l, hl, hb⟩, bs', ⟨rfl, ls, hbs, hls⟩, h⟩
      cases h
      exact ⟨rfl, l :: ls, .cons hb hbs, by rw [hl, hls, List.cons_append]⟩
    · rintro ⟨hlen, ls, hbs, hls⟩
      cases hbs with
      | nil => cases hlen
      | @cons b l bs' ls' hb hbs' =>
        have hl := hls
        rw [List.cons_append] at hl
        have htail : (lexemes ts).drop (index + 1) = ls' ++ (lexemes ts).drop (index + (count + 1)) := by
          rw [← List.tail_drop, hl, List.tail_cons]
        exact ⟨b, ⟨l, by rw [hl, htail], hb⟩, bs', ⟨by simpa using hlen, ls', hbs', htail⟩, rfl⟩

/-- The rest of a call whose first element is its mnemonic. -/
theorem call_eq_ok_iff (head : Token) (ts : List Token) (i : SymbolicInstr) :
    call head ts = .ok i ↔ ∃ target s args pads, i = .call target s args ∧
      nameAt ts 1 .callTarget = .ok target ∧ signatureAt ts 2 = .ok s ∧ Instr.callLen s.arity ≤ ts.length ∧
      bytesAt ts 3 s.arity = .ok args ∧
      bytesAt ts (3 + s.arity) (Instr.callLen s.arity - (3 + s.arity)) = .ok pads := by
  simp only [call, bind_eq_ok_iff]
  constructor
  · rintro ⟨target, ht, s, hs, h⟩
    split at h
    · cases h
    rename_i hlen
    obtain ⟨args, hargs, pads, hpads, h⟩ := by simpa only [bind_eq_ok_iff] using h
    cases h
    exact ⟨target, s, args, pads, rfl, ht, hs, Nat.le_of_not_lt hlen, hargs, hpads⟩
  · rintro ⟨target, s, args, pads, rfl, ht, hs, hlen, hargs, hpads⟩
    refine ⟨target, ht, s, hs, ?_⟩
    rw [if_neg (Nat.not_lt.2 hlen)]
    simp only [bind_eq_ok_iff]
    exact ⟨args, hargs, pads, hpads, rfl⟩

theorem length_lexemes (ts : List Token) : (lexemes ts).length = ts.length := List.length_map _

theorem spells_of_call {head : Token} {ts : List Token} {i : SymbolicInstr}
    (hhead : lexemes ts = .name Opcode.call.mnemonic :: (lexemes ts).drop 1) (h : call head ts = .ok i) :
    ∃ part, Spells i part ∧ lexemes ts = part ++ (lexemes ts).drop i.encodedLen := by
  obtain ⟨target, s, args, pads, rfl, ht, hs, hlen, hargs, hpads⟩ := (call_eq_ok_iff head ts i).1 h
  rw [nameAt_eq_ok_iff] at ht
  rw [signatureAt_eq_ok_iff] at hs
  obtain ⟨harity, largs, hlargs, hdargs⟩ := (bytesAt_eq_ok_iff ts _ _ args).1 hargs
  obtain ⟨hpad, lpads, hlpads, hdpads⟩ := (bytesAt_eq_ok_iff ts _ _ pads).1 hpads
  have hle := Instr.le_callLen s.arity
  refine ⟨_, .call hlargs harity hlpads (by omega), hhead.trans ?_⟩
  rw [show 3 + s.arity + (Instr.callLen s.arity - (3 + s.arity)) = Instr.callLen s.arity by omega] at hdpads
  rw [Instr.encodedLen, harity, ht, hs, hdargs, hdpads]
  simp

theorem spells_of_word {ts : List Token} {i : SymbolicInstr} (h : word ts = .ok i) :
    ∃ part, Spells i part ∧ lexemes ts = part ++ (lexemes ts).drop i.encodedLen := by
  obtain ⟨head, hhead, h⟩ := bind_eq_ok_iff.1 h
  rw [tokenAt_eq_ok_iff] at hhead
  have hfirst : (lexemes ts)[0]? = some head.lexeme := by rw [lexemes, List.getElem?_map, hhead]; rfl
  rw [getElem?_eq_some_iff_drop] at hfirst
  split at h
  · cases h
  rename_i mnemonic hl
  rw [hl] at hfirst
  split at h
  · cases h
  · rename_i ho
    rw [← Opcode.mnemonic_of_ofMnemonic? ho] at hfirst
    exact spells_of_call hfirst h
  · rename_i o hne ho
    simp only [bind_eq_ok_iff, byteAt_eq_ok_iff] at h
    obtain ⟨x, ⟨lx, hdx, hx⟩, y, ⟨ly, hdy, hy⟩, z, ⟨lz, hdz, hz⟩, h⟩ := h
    cases h
    rw [← Opcode.mnemonic_of_ofMnemonic? ho] at hfirst
    refine ⟨_, .op hne hx hy hz, hfirst.trans ?_⟩
    rw [hdx, hdy, hdz]
    rfl

theorem word_of_spells {ts : List Token} {i : SymbolicInstr} {part rest : List Lexeme} (h : Spells i part)
    (hts : lexemes ts = part ++ rest) : word ts = .ok i := by
  have hhead : ∃ head l, part.head? = some l ∧ tokenAt ts 0 = .ok head ∧ head.lexeme = l := by
    obtain ⟨l, hl⟩ : ∃ l, part.head? = some l := by cases h <;> exact ⟨_, rfl⟩
    have hfirst : (lexemes ts)[0]? = some l := by
      rw [hts, ← List.head?_eq_getElem?, List.head?_append, hl]
      rfl
    rw [lexemes, List.getElem?_map] at hfirst
    obtain ⟨head, hhead, hlex⟩ := Option.map_eq_some_iff.1 hfirst
    exact ⟨head, l, hl, (tokenAt_eq_ok_iff ts 0 head).2 hhead, hlex⟩
  obtain ⟨head, l, hl, hhead, hlex⟩ := hhead
  refine bind_eq_ok_iff.2 ⟨head, hhead, ?_⟩
  rw [hlex]
  cases h with
  | @op o x y z lx ly lz ho hx hy hz =>
    cases hl
    have hbx : byteAt ts 1 = .ok x := (byteAt_eq_ok_iff ts 1 x).2 ⟨lx, by rw [hts]; rfl, hx⟩
    have hby : byteAt ts 2 = .ok y := (byteAt_eq_ok_iff ts 2 y).2 ⟨ly, by rw [hts]; rfl, hy⟩
    have hbz : byteAt ts 3 = .ok z := (byteAt_eq_ok_iff ts 3 z).2 ⟨lz, by rw [hts]; rfl, hz⟩
    simp only [Opcode.ofMnemonic?_mnemonic, bind_eq_ok_iff]
    exact ⟨x, hbx, y, hby, z, hbz, rfl⟩
  | @call target s args pads largs lpads hargs harity hpads hlen =>
    cases hl
    simp only [Opcode.ofMnemonic?_mnemonic]
    have hdrop : (lexemes ts).drop 3 = largs ++ (lpads ++ rest) := by rw [hts]; simp
    have hlargs : largs.length = s.arity := by rw [← hargs.length_eq, harity]
    have hlpads : lpads.length = Instr.callLen s.arity - (3 + s.arity) := by
      have := hpads.length_eq
      omega
    have hdargs : (lexemes ts).drop (3 + s.arity) = lpads ++ rest := by
      rw [← List.drop_drop, hdrop, List.drop_left' hlargs]
    have hdpads : (lexemes ts).drop (3 + s.arity + (Instr.callLen s.arity - (3 + s.arity))) = rest := by
      rw [← List.drop_drop, hdargs, List.drop_left' hlpads]
    have hle : Instr.callLen s.arity ≤ ts.length := by
      have hlen' := congrArg List.length hts
      have h1 := hargs.length_eq
      have h2 := hpads.length_eq
      rw [length_lexemes] at hlen'
      simp only [List.length_append, List.length_cons] at hlen'
      omega
    rw [call_eq_ok_iff]
    refine ⟨target, s, args, pads, rfl, ?_, ?_, hle, ?_, ?_⟩
    · rw [nameAt_eq_ok_iff, hts]
      rfl
    · rw [signatureAt_eq_ok_iff, hts]
      rfl
    · exact (bytesAt_eq_ok_iff ts _ _ args).2 ⟨harity, largs, hargs, by rw [hdrop, hdargs]⟩
    · exact (bytesAt_eq_ok_iff ts _ _ pads).2 ⟨by omega, lpads, hpads, by rw [hdargs, hdpads]⟩

/-- **Words are read exactly from a spelling of them.** -/
theorem words_eq_ok_iff (ts : List Token) (is : List SymbolicInstr) :
    words ts = .ok is ↔ Spelling is (lexemes ts) := by
  constructor
  · intro h
    fun_induction words ts generalizing is with
    | case1 => cases h; exact (spelling_nil_iff _).2 rfl
    | case2 => cases h
    | case3 => cases h
    | case4 t rest i hi is' his ih =>
      cases h
      obtain ⟨part, hpart, hts⟩ := spells_of_word hi
      refine (spelling_cons_iff i is' _).2 ⟨part, _, hpart, ?_, hts⟩
      have := ih is' his
      rwa [lexemes, List.map_drop] at this
  · intro h
    induction is generalizing ts with
    | nil =>
      have hnil : ts = [] := List.map_eq_nil_iff.1 ((spelling_nil_iff _).1 h)
      rw [hnil, words]
    | cons i is ih =>
      obtain ⟨part, rest, hi, his, hts⟩ := (spelling_cons_iff i is _).1 h
      have hword := word_of_spells hi hts
      have hrest : lexemes (ts.drop i.encodedLen) = rest := by
        rw [lexemes, List.map_drop, ← lexemes, hts, List.drop_left' hi.length_eq]
      cases ts with
      | nil => cases hword
      | cons t ts =>
        rw [words, hword]
        simp only
        rw [ih _ (by rwa [hrest])]

theorem Spells.headed {i : SymbolicInstr} {ls : List Lexeme} (h : Spells i ls) (ho : i.opcode = .prologue) :
    ∃ n y z, i = .op .prologue n y z := by
  cases h with
  | @op o x y z =>
    obtain rfl : o = .prologue := ho
    exact ⟨x, y, z, rfl⟩
  | call => cases ho

theorem checkPrologue_eq_ok_iff {ts : List Token} {is is' : List SymbolicInstr} (h : Spelling is (lexemes ts)) :
    checkPrologue ts is = .ok is' ↔ is = is' ∧ Headed is := by
  cases is with
  | nil =>
    obtain rfl : ts = [] := List.map_eq_nil_iff.1 ((spelling_nil_iff _).1 h)
    simp [checkPrologue, Headed]
  | cons i is =>
    obtain ⟨part, rest, hi, -, hts⟩ := (spelling_cons_iff i is _).1 h
    cases ts with
    | nil =>
      have hpos := i.encodedLen_pos
      rw [← hi.length_eq] at hpos
      have hlen := congrArg List.length hts
      rw [length_lexemes, List.length_append] at hlen
      simp only [List.length_nil] at hlen
      omega
    | cons t ts =>
      rw [checkPrologue]
      constructor
      · intro hc
        split at hc
        · rename_i ho
          cases hc
          exact ⟨rfl, fun j hj => by cases hj; exact hi.headed ho⟩
        · cases hc
      · rintro ⟨rfl, hhead⟩
        obtain ⟨n, y, z, rfl⟩ := hhead i rfl
        rfl

/-- What a listing was read from spells it. -/
theorem exists_tokens_of_parse {text : String} {is : List SymbolicInstr} (h : parse text = .ok is) :
    ∃ ts, tokens text = .ok ts ∧ Spelling is (lexemes ts) ∧ Headed is := by
  unfold parse at h
  obtain ⟨ts, hts, h⟩ := bind_eq_ok_iff.1 h
  split at h
  · cases h
  simp only [bind_eq_ok_iff, mapError_eq_ok_iff, words_eq_ok_iff] at h
  obtain ⟨is', hspell, hcheck⟩ := h
  obtain ⟨rfl, hhead⟩ := (checkPrologue_eq_ok_iff hspell).1 hcheck
  exact ⟨ts, hts, hspell, hhead⟩

theorem spelling_of_parse {text : String} {is : List SymbolicInstr} (h : parse text = .ok is) :
    (∃ ls, IsArray text.toList ls ∧ Spelling is ls) ∧ Headed is := by
  obtain ⟨ts, hts, hspell, hhead⟩ := exists_tokens_of_parse h
  exact ⟨⟨lexemes ts, isArray_of_tokens hts, hspell⟩, hhead⟩

/-- A spelling is read. -/
theorem parse_of_spelling {text : String} {is : List SymbolicInstr} {ls : List Lexeme}
    (harray : IsArray text.toList ls) (hspell : Spelling is ls) (hhead : Headed is) : parse text = .ok is := by
  obtain ⟨ts, hts, rfl⟩ := tokens_of_isArray harray
  have hwords : ts.length % wordSize = 0 := by
    rw [← length_lexemes]
    exact Nat.mod_eq_zero_of_dvd hspell.dvd_length
  unfold parse
  refine bind_eq_ok_iff.2 ⟨ts, hts, ?_⟩
  rw [if_neg (by simp [hwords])]
  simp only [bind_eq_ok_iff, mapError_eq_ok_iff, words_eq_ok_iff]
  exact ⟨is, hspell, (checkPrologue_eq_ok_iff hspell).2 ⟨rfl, hhead⟩⟩

/-- **A listing reads as instructions exactly if it is an array of elements that spells them**, and the first of them,
if any, is a function header. -/
theorem parse_eq_ok_iff_isArray (text : String) (is : List SymbolicInstr) :
    parse text = .ok is ↔ (∃ ls, IsArray text.toList ls ∧ Spelling is ls) ∧ Headed is :=
  ⟨spelling_of_parse, fun ⟨⟨_, harray, hspell⟩, hhead⟩ => parse_of_spelling harray hspell hhead⟩

end Listing
end Wordcode
