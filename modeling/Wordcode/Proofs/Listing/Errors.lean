import Wordcode.Proofs.Listing.Places
import Wordcode.Proofs.Listing.WordErrors
/-!
# Proofs.Listing.Errors — a listing's error points at the first element that is wrong

A listing is refused because its elements are not whole words, else for the first word that is wrong, else because it
does not start as a function has to (`parse_eq_error_iff`).  So what an error points at runs from the start of an element
to the end of that one or of a later one, if it is not the whole text or, where the text has no elements, one place
(`span_of_parse_eq_error`), and the elements are those that show what is wrong (`errors_point_at_elements`).
-/
namespace Wordcode.Listing

open Text (byteLen)

variable {text : String} {ts : List Token}

/-! ## What is wrong -/

/-- **What a listing with these elements is refused for.** -/
inductive Refusal (text : String) (ts : List Token) : Error → Prop
  | notWordAligned (h : ¬ wordSize ∣ ts.length) : Refusal text ts (.notWordAligned text ts.length)
  /-- Every word in front of the one that is wrong is read. -/
  | word {is : List SymbolicInstr} {front rest : List Token} {e : Error} (h : wordSize ∣ ts.length)
      (hts : ts = front ++ rest) (hspell : Spelling is (lexemes front)) (he : WordError rest e) : Refusal text ts e
  /-- Every word of the listing is read. -/
  | missingPrologue {first : Token} {i : SymbolicInstr} {is : List SymbolicInstr} (hfirst : ts.head? = some first)
      (hspell : Spelling (i :: is) (lexemes ts)) (hi : i.opcode ≠ .prologue) :
    Refusal text ts ⟨.missingPrologue i.opcode, first.span⟩

theorem checkPrologue_eq_error_iff {is : List SymbolicInstr} (hspell : Spelling is (lexemes ts)) (e : Error) :
    checkPrologue ts is = .error e ↔ ∃ first i is', ts.head? = some first ∧ is = i :: is' ∧ i.opcode ≠ .prologue ∧
      e = ⟨.missingPrologue i.opcode, first.span⟩ := by
  constructor
  · intro h
    unfold checkPrologue at h
    split at h
    · split at h
      · cases h
      · rename_i hi
        cases h
        exact ⟨_, _, _, rfl, rfl, hi, rfl⟩
    · cases h
  · rintro ⟨first, i, is, hfirst, rfl, hi, rfl⟩
    cases ts with
    | nil => cases hfirst
    | cons t ts =>
      cases hfirst
      rw [checkPrologue, if_neg hi]

/-- **A listing that has elements is refused exactly for what is wrong with them.** -/
theorem parse_eq_error_iff (h : tokens text = .ok ts) (e : Error) : parse text = .error e ↔ Refusal text ts e := by
  unfold parse
  rw [h]
  show (if ts.length % wordSize ≠ 0 then _ else _) = _ ↔ _
  by_cases hdvd : wordSize ∣ ts.length
  · rw [if_neg (not_not_intro (Nat.mod_eq_zero_of_dvd hdvd))]
    show ((words ts).mapError _ >>= _) = _ ↔ _
    rw [bind_eq_error_iff]
    constructor
    · rintro (hwords | ⟨is, hwords, hcheck⟩)
      · cases hw : words ts with
        | ok is => rw [hw] at hwords; cases hwords
        | error s =>
          -- the reader never stops for an element that is missing: the elements are whole words
          obtain ⟨e', rfl, is, front, rest, hts, hspell, he⟩ := (words_eq_error_iff hdvd s).1 hw
          rw [hw] at hwords
          cases hwords
          exact .word hdvd hts hspell he
      · rw [mapError_eq_ok_iff, words_eq_ok_iff] at hwords
        obtain ⟨first, i, is', hfirst, rfl, hi, rfl⟩ := (checkPrologue_eq_error_iff hwords e).1 hcheck
        exact .missingPrologue hfirst hwords hi
    · intro he
      cases he with
      | notWordAligned hno => exact absurd hdvd hno
      | word _ hts hspell he =>
        rw [(words_eq_error_iff hdvd (.error e)).2 ⟨e, rfl, _, _, _, hts, hspell, he⟩]
        exact .inl rfl
      | @missingPrologue first i is hfirst hspell hi =>
        refine .inr ⟨i :: is, ?_, (checkPrologue_eq_error_iff hspell _).2 ⟨first, i, is, hfirst, rfl, hi, rfl⟩⟩
        rw [mapError_eq_ok_iff, words_eq_ok_iff]
        exact hspell
  · rw [if_pos fun hmod => hdvd (Nat.dvd_of_mod_eq_zero hmod)]
    constructor
    · intro he
      cases he
      exact .notWordAligned hdvd
    · intro he
      cases he with
      | notWordAligned => rfl
      | word hyes => exact absurd hyes hdvd
      | missingPrologue hfirst hspell hi => exact absurd (length_lexemes ts ▸ hspell.dvd_length) hdvd

/-! ## Where an error points -/

/-- The span runs from the start of an element to the end of that one or of a later one. -/
def Covers (ts : List Token) (span : Span) : Prop :=
  ∃ t u, span = ⟨t.span.start, u.span.stop⟩ ∧ (t = u ∧ t ∈ ts ∨ [t, u].Sublist ts)

theorem covers_of_mem {t : Token} (h : t ∈ ts) : Covers ts t.span := ⟨t, t, rfl, .inl ⟨rfl, h⟩⟩

theorem Covers.mem {span : Span} (h : Covers ts span) : ∃ t ∈ ts, ∃ u ∈ ts, span = ⟨t.span.start, u.span.stop⟩ := by
  obtain ⟨t, u, hspan, ⟨rfl, ht⟩ | htu⟩ := h
  · exact ⟨t, ht, t, ht, hspan⟩
  · exact ⟨t, htu.subset List.mem_cons_self, u, htu.subset (List.mem_cons_of_mem t List.mem_cons_self), hspan⟩

theorem Covers.mono {us : List Token} {span : Span} (h : Covers us span) (hsub : us.Sublist ts) : Covers ts span := by
  obtain ⟨t, u, hspan, ⟨rfl, ht⟩ | htu⟩ := h
  · exact ⟨t, t, hspan, .inl ⟨rfl, hsub.subset ht⟩⟩
  · exact ⟨t, u, hspan, .inr (htu.trans hsub)⟩

theorem ByteError.covers {e : Error} (h : ByteError ts e) : Covers ts e.span := by
  obtain ⟨rfl, -, kind, -, rfl⟩ := h
  exact covers_of_mem (List.mem_append_right _ List.mem_cons_self)

theorem WordError.covers {e : Error} (h : WordError ts e) : Covers ts e.span := by
  cases h with
  | expectedOpcode => exact covers_of_mem List.mem_cons_self
  | unknownOpcode => exact covers_of_mem List.mem_cons_self
  | operand _ _ he => exact he.covers.mono ((List.take_sublist _ _).trans (List.sublist_cons_self _ _))
  | expectedTarget => exact covers_of_mem (by simp)
  | expectedSignature => exact covers_of_mem (by simp)
  | invalidSignature => exact covers_of_mem (by simp)
  | @truncatedCall head target sig last ts name s _ _ _ _ hlast =>
    have hmem : last ∈ target :: sig :: ts := List.mem_cons_of_mem _ (List.mem_of_getLast? hlast)
    exact ⟨head, last, rfl, .inr ((List.singleton_sublist.2 hmem).cons_cons head)⟩
  | @argument head target sig ts name s e _ _ _ _ he =>
    have htail : ts.Sublist (head :: target :: sig :: ts) := List.sublist_append_right [head, target, sig] ts
    exact he.covers.mono ((List.take_sublist _ _).trans htail)

/-- **From one element to a later one is a stretch of the text**, whatever stands between them. -/
theorem Covers.isValid {span : Span} (hts : tokens text = .ok ts) (h : Covers ts span) :
    span.start ≤ span.stop ∧ String.Pos.Raw.IsValid text ⟨span.start⟩ ∧ String.Pos.Raw.IsValid text ⟨span.stop⟩ := by
  have hstands := standsIn_of_tokens hts
  obtain ⟨t, u, rfl, ⟨rfl, ht⟩ | htu⟩ := h
  · exact ⟨(hstands t ht).start_le_stop, (hstands t ht).isValid⟩
  · have ht := hstands t (htu.subset List.mem_cons_self)
    have hu := hstands u (htu.subset (List.mem_cons_of_mem t List.mem_cons_self))
    have hle := List.rel_of_pairwise_cons ((pairwise_tokens hts).sublist htu) List.mem_cons_self
    exact ⟨Nat.le_trans ht.start_le_stop (Nat.le_trans hle hu.start_le_stop), ht.isValid.1, hu.isValid.2⟩

theorem Refusal.covers {e : Error} (h : Refusal text ts e) : e.span = ⟨0, byteLen text.toList⟩ ∨ Covers ts e.span := by
  cases h with
  | notWordAligned => exact .inl rfl
  | @word is front rest e _ hsplit _ he => exact .inr (he.covers.mono (hsplit ▸ List.sublist_append_right front rest))
  | missingPrologue hfirst => exact .inr (covers_of_mem (List.mem_of_head? hfirst))

/-- **What a listing's errors point at**: one place, the whole text, or its elements from one to one. -/
theorem span_of_parse_eq_error {e : Error} (h : parse text = .error e) :
    (e.span.start = e.span.stop ∧ String.Pos.Raw.IsValid text ⟨e.span.start⟩) ∨
      ∃ ts, tokens text = .ok ts ∧ (e.span = ⟨0, byteLen text.toList⟩ ∨ Covers ts e.span) := by
  cases hts : tokens text with
  | error e' =>
    unfold parse at h
    rw [hts] at h
    cases h
    exact .inl ⟨empty_span_of_tokens hts, isValid_of_tokens_eq_error hts⟩
  | ok ts => exact .inr ⟨ts, rfl, ((parse_eq_error_iff hts e).1 h).covers⟩

theorem isValid_of_parse_eq_error {e : Error} (h : parse text = .error e) :
    e.span.start ≤ e.span.stop ∧ String.Pos.Raw.IsValid text ⟨e.span.start⟩ ∧
      String.Pos.Raw.IsValid text ⟨e.span.stop⟩ := by
  rcases span_of_parse_eq_error h with ⟨hspan, hvalid⟩ | ⟨ts, hts, hspan | hcovers⟩
  · exact ⟨Nat.le_of_eq hspan, hvalid, hspan ▸ hvalid⟩
  · rw [hspan]
    exact ⟨Nat.zero_le _, isValid_byteLen (List.nil_append _).symm, isValid_byteLen (List.append_nil _).symm⟩
  · exact hcovers.isValid hts

/-- **A span of an error that is not empty** starts and stops in front of ASCII characters or at the end. -/
theorem cut_of_parse_eq_error {e : Error} (h : parse text = .error e) (hs : e.span.start < e.span.stop) :
    Cut text.toList e.span.start ∧ Cut text.toList e.span.stop := by
  rcases span_of_parse_eq_error h with ⟨heq, -⟩ | ⟨ts, hts, hspan | hcovers⟩
  · omega
  · rw [hspan]
    exact ⟨cut_zero_of_tokens hts, cut_of_append (List.append_nil _).symm fun c hc => by cases hc⟩
  · obtain ⟨t, ht, u, hu, hspan⟩ := hcovers.mem
    rw [hspan]
    exact ⟨(standsIn_of_tokens hts t ht).cut_start, (standsIn_of_tokens hts u hu).cut_stop⟩

theorem not_wordError_notWordAligned (n : Nat) (span : Span) : ¬ WordError ts ⟨.notWordAligned n, span⟩ := by
  have hno : ∀ l : Lexeme, ¬ l.NoByte (.notWordAligned n) := fun l h => by cases h
  have hbyte : ∀ {us : List Token}, ¬ ByteError us ⟨.notWordAligned n, span⟩ := by
    rintro us ⟨-, -, kind, hkind, heq⟩
    cases heq
    exact hno _ hkind
  intro h
  cases h with
  | operand _ _ he => exact hbyte he
  | argument _ _ _ _ he => exact hbyte he

theorem parse_eq_notWordAligned_iff (h : tokens text = .ok ts) (n : Nat) (span : Span) :
    parse text = .error ⟨.notWordAligned n, span⟩ ↔
      ¬ wordSize ∣ ts.length ∧ n = ts.length ∧ span = ⟨0, text.utf8ByteSize⟩ := by
  rw [parse_eq_error_iff h, utf8ByteSize_eq]
  constructor
  · intro he
    cases he with
    | notWordAligned hno => exact ⟨hno, rfl, rfl⟩
    | word _ _ _ he => exact absurd he (not_wordError_notWordAligned n span)
  · rintro ⟨hno, rfl, rfl⟩
    exact .notWordAligned hno

/-- **A listing's error points at the first element that is wrong.**  Its span is a stretch of the text between
characters.  Where the text is an array, each element stands in it with its quotes, elements that are not whole words
are refused as a whole, and any other error is that of the first wrong word, or of a listing whose words are all read. -/
theorem errors_point_at_elements (text : String) :
    (∀ e, parse text = .error e → e.span.start ≤ e.span.stop ∧ e.span.stop ≤ text.utf8ByteSize ∧
      String.Pos.Raw.IsValid text ⟨e.span.start⟩ ∧ String.Pos.Raw.IsValid text ⟨e.span.stop⟩) ∧
    ∀ ts, tokens text = .ok ts →
      (∀ t ∈ ts, t.StandsIn text) ∧
      (∀ n span, parse text = .error ⟨.notWordAligned n, span⟩ ↔
        ¬ wordSize ∣ ts.length ∧ n = ts.length ∧ span = ⟨0, text.utf8ByteSize⟩) ∧
      ∀ e, parse text = .error e ↔ Refusal text ts e := by
  refine ⟨fun e h => ?_, fun ts hts => ⟨standsIn_of_tokens hts, parse_eq_notWordAligned_iff hts,
    parse_eq_error_iff hts⟩⟩
  obtain ⟨hle, hstart, hstop⟩ := isValid_of_parse_eq_error h
  exact ⟨hle, hstop.le_rawEndPos, hstart, hstop⟩

/-- A byte of a call behind a name of two bytes. -/
theorem errors_point_at_argument :
    ∃ ts, tokens "[\"FUNC\", 1, 0, 0, \"CALL\", \"é\", \"vii\", 1, 256, 0, 0, 0]" = .ok ts ∧
      parse "[\"FUNC\", 1, 0, 0, \"CALL\", \"é\", \"vii\", 1, 256, 0, 0, 0]" =
        .error ⟨.operandOutOfRange "256", ⟨42, 45⟩⟩ ∧
      String.Pos.Raw.IsValid "[\"FUNC\", 1, 0, 0, \"CALL\", \"é\", \"vii\", 1, 256, 0, 0, 0]" ⟨42⟩ ∧
      Refusal "[\"FUNC\", 1, 0, 0, \"CALL\", \"é\", \"vii\", 1, 256, 0, 0, 0]" ts
        ⟨.operandOutOfRange "256", ⟨42, 45⟩⟩ := by
  have herror : parse "[\"FUNC\", 1, 0, 0, \"CALL\", \"é\", \"vii\", 1, 256, 0, 0, 0]" =
      .error ⟨.operandOutOfRange "256", ⟨42, 45⟩⟩ := by decide +kernel
  have htokens : (tokens "[\"FUNC\", 1, 0, 0, \"CALL\", \"é\", \"vii\", 1, 256, 0, 0, 0]").isOk = true := by
    decide +kernel
  obtain ⟨ts, hts⟩ := exists_ok_of_isOk htokens
  obtain ⟨-, -, hstart, -⟩ := (errors_point_at_elements _).1 _ herror
  obtain ⟨-, -, hrefusal⟩ := (errors_point_at_elements _).2 ts hts
  exact ⟨ts, hts, herror, hstart, (hrefusal _).1 herror⟩

end Wordcode.Listing
