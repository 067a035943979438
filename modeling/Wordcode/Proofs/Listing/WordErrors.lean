import Wordcode.Proofs.Listing.Language
/-!
# Proofs.Listing.WordErrors — what is wrong with a word that cannot be read

The elements of a listing are read word by word, and those of a word from left to right.  `WordError` says what can be
wrong with the word that elements start with, and which elements show it; a word is refused exactly for that
(`word_eq_error_iff`), and words are refused for the first word of which it holds (`words_eq_error_iff`).  Elements that
are whole words are never read beyond their end.
-/
namespace Wordcode.Listing

/-- What an element is called that should be a byte and is none. -/
inductive Lexeme.NoByte : Lexeme → ErrorKind → Prop
  | name {text : String} : NoByte (.name text) .expectedByte
  | integer {text : String} (h : ∀ b, ¬ (Lexeme.integer text).IsByte b) :
    NoByte (.integer text) (.operandOutOfRange text)

def AreBytes (ts : List Token) : Prop := ∀ t ∈ ts, ∃ b, t.lexeme.IsByte b

/-- The first of the elements that is no byte. -/
def ByteError : List Token → Error → Prop :=
  First AreBytes fun _ t e => ∃ kind, t.lexeme.NoByte kind ∧ e = ⟨kind, t.span⟩

/-- **What is wrong with the word that the elements start with.**  Of several things it is the one furthest to the left;
a call is too long before any of its bytes is looked at. -/
inductive WordError : List Token → Error → Prop
  | expectedOpcode {head : Token} {ts : List Token} {text : String} (hh : head.lexeme = .integer text) :
    WordError (head :: ts) ⟨.expectedOpcode, head.span⟩
  | unknownOpcode {head : Token} {ts : List Token} {mnemonic : String} (hh : head.lexeme = .name mnemonic)
      (ho : ∀ o : Opcode, o.mnemonic ≠ mnemonic) : WordError (head :: ts) ⟨.unknownOpcode mnemonic, head.span⟩
  | operand {head : Token} {ts : List Token} {o : Opcode} {e : Error} (hh : head.lexeme = .name o.mnemonic)
      (ho : o ≠ .call) (he : ByteError (ts.take 3) e) : WordError (head :: ts) e
  | expectedTarget {head target : Token} {ts : List Token} {text : String}
      (hh : head.lexeme = .name Opcode.call.mnemonic) (ht : target.lexeme = .integer text) :
    WordError (head :: target :: ts) ⟨.expectedName .callTarget, target.span⟩
  | expectedSignature {head target sig : Token} {ts : List Token} {name text : String}
      (hh : head.lexeme = .name Opcode.call.mnemonic) (ht : target.lexeme = .name name)
      (hs : sig.lexeme = .integer text) :
    WordError (head :: target :: sig :: ts) ⟨.expectedName .signature, sig.span⟩
  | invalidSignature {head target sig : Token} {ts : List Token} {name text : String}
      (hh : head.lexeme = .name Opcode.call.mnemonic) (ht : target.lexeme = .name name) (hs : sig.lexeme = .name text)
      (hn : ∀ s : Signature, s.text ≠ text) :
    WordError (head :: target :: sig :: ts) ⟨.invalidSignature text, sig.span⟩
  | truncatedCall {head target sig last : Token} {ts : List Token} {name : String} {s : Signature}
      (hh : head.lexeme = .name Opcode.call.mnemonic) (ht : target.lexeme = .name name)
      (hs : sig.lexeme = .name s.text) (hlen : ts.length + 3 < Instr.callLen s.arity)
      (hlast : (sig :: ts).getLast? = some last) :
    WordError (head :: target :: sig :: ts)
      ⟨.truncatedCall (Instr.callLen s.arity) (ts.length + 3), ⟨head.span.start, last.span.stop⟩⟩
  | argument {head target sig : Token} {ts : List Token} {name : String} {s : Signature} {e : Error}
      (hh : head.lexeme = .name Opcode.call.mnemonic) (ht : target.lexeme = .name name)
      (hs : sig.lexeme = .name s.text) (hlen : Instr.callLen s.arity ≤ ts.length + 3)
      (he : ByteError (ts.take (Instr.callLen s.arity - 3)) e) : WordError (head :: target :: sig :: ts) e

/-! ## Bytes -/

theorem Lexeme.NoByte.not_isByte {l : Lexeme} {kind : ErrorKind} (h : l.NoByte kind) (b : UInt8) : ¬ l.IsByte b := by
  cases h with
  | name => exact fun hb => nomatch hb
  | integer h => exact h b

theorem Token.asByte_eq_error_iff (t : Token) (s : Stop) :
    t.asByte = .error s ↔ ∃ kind, t.lexeme.NoByte kind ∧ s = .error ⟨kind, t.span⟩ := by
  obtain ⟨lexeme, span⟩ := t
  cases lexeme with
  | name text =>
    constructor
    · intro h
      cases h
      exact ⟨_, .name, rfl⟩
    · rintro ⟨kind, hkind, rfl⟩
      cases hkind
      rfl
  | integer text =>
    cases hb : asByte ⟨.integer text, span⟩ with
    | ok b =>
      have hbyte := (asByte_eq_ok_iff _ b).1 hb
      exact ⟨fun h => (by cases h), fun ⟨_, hkind, _⟩ => absurd hbyte (hkind.not_isByte b)⟩
    | error s' =>
      have hno : ∀ b, ¬ (Lexeme.integer text).IsByte b := fun b hbyte => by
        rw [(asByte_eq_ok_iff ⟨.integer text, span⟩ b).2 hbyte] at hb
        cases hb
      have hs' : s' = .error ⟨.operandOutOfRange text, span⟩ := by
        unfold asByte at hb
        simp only at hb
        split at hb <;> cases hb
        rfl
      subst hs'
      constructor
      · intro h
        cases h
        exact ⟨_, .integer hno, rfl⟩
      · rintro ⟨kind, hkind, rfl⟩
        cases hkind
        rfl

theorem byteError_cons_iff (t : Token) (ts : List Token) (e : Error) :
    ByteError (t :: ts) e ↔
      (∃ kind, t.lexeme.NoByte kind ∧ e = ⟨kind, t.span⟩) ∨ (∃ b, t.lexeme.IsByte b) ∧ ByteError ts e := by
  constructor
  · rintro ⟨hs, hc, hb⟩
    rename_i front u behind
    cases front with
    | nil =>
      cases hs
      exact .inl hb
    | cons v front =>
      cases hs
      exact .inr ⟨hc t List.mem_cons_self, .intro rfl (fun u hu => hc u (List.mem_cons_of_mem t hu)) hb⟩
  · rintro (hb | ⟨ht, rfl, hc, hb⟩)
    · exact .intro (List.nil_append _).symm (fun u hu => by cases hu) hb
    · refine .intro (List.cons_append ..).symm (fun u hu => ?_) hb
      rcases List.mem_cons.1 hu with rfl | hu
      · exact ht
      · exact hc u hu

theorem not_byteError_nil (e : Error) : ¬ ByteError [] e := by
  rintro ⟨hs, -, -⟩
  exact List.append_ne_nil_of_right_ne_nil _ (List.cons_ne_nil _ _) hs.symm

theorem byteAt_of_drop {ts rest : List Token} {index : Nat} {t : Token} (h : ts.drop index = t :: rest) :
    byteAt ts index = t.asByte := by
  have ht : ts[index]? = some t := by rw [← List.head?_drop, h]; rfl
  rw [byteAt, (tokenAt_eq_ok_iff ts index t).2 ht]
  rfl

/-- **Bytes are refused for the first of their elements that is none**, as long as all of them are there. -/
theorem bytesAt_eq_error_iff {ts : List Token} {index count : Nat} (h : index + count ≤ ts.length) (s : Stop) :
    bytesAt ts index count = .error s ↔ ∃ e, s = .error e ∧ ByteError ((ts.drop index).take count) e := by
  induction count generalizing index with
  | zero =>
    simp only [bytesAt, List.take_zero, not_byteError_nil, and_false, exists_false, iff_false]
    intro h
    cases h
  | succ count ih =>
    obtain ⟨t, ht⟩ : ∃ t, ts.drop index = t :: ts.drop (index + 1) := ⟨_, List.drop_eq_getElem_cons (by omega)⟩
    have hmore : index + 1 + count ≤ ts.length := by omega
    rw [bytesAt, byteAt_of_drop ht, ht, List.take_succ_cons]
    simp only [byteError_cons_iff, bind_eq_error_iff, Token.asByte_eq_error_iff, Token.asByte_eq_ok_iff, ih hmore]
    constructor
    · rintro (⟨kind, hkind, rfl⟩ | ⟨b, hb, ⟨e, rfl, he⟩ | ⟨bs, -, h⟩⟩)
      · exact ⟨_, rfl, .inl ⟨kind, hkind, rfl⟩⟩
      · exact ⟨e, rfl, .inr ⟨⟨b, hb⟩, he⟩⟩
      · cases h
    · rintro ⟨e, rfl, ⟨kind, hkind, rfl⟩ | ⟨⟨b, hb⟩, he⟩⟩
      · exact .inl ⟨kind, hkind, rfl⟩
      · exact .inr ⟨b, hb, .inl ⟨e, rfl, he⟩⟩

theorem bytesAt_add (ts : List Token) (m n index : Nat) :
    bytesAt ts index (m + n) = do
      let front ← bytesAt ts index m
      let behind ← bytesAt ts (index + m) n
      return front ++ behind := by
  induction m generalizing index with
  | zero =>
    rw [Nat.zero_add]
    show bytesAt ts index n = bytesAt ts index n >>= fun behind => .ok behind
    cases bytesAt ts index n <;> rfl
  | succ m ih =>
    rw [Nat.succ_add, bytesAt, bytesAt, ih, Nat.add_right_comm index 1 m]
    simp [bind_assoc, Nat.add_assoc]

/-- What is made of the bytes in the end does not matter to what refuses them. -/
theorem operands_eq_error_iff {α : Type} (ts : List Token) (f : UInt8 → UInt8 → UInt8 → α) (s : Stop) :
    (do
      let x ← byteAt ts 1
      let y ← byteAt ts 2
      let z ← byteAt ts 3
      return f x y z) = .error s ↔ bytesAt ts 1 3 = .error s := by
  simp only [bytesAt, bind_eq_error_iff, pure, Except.pure, reduceCtorEq, and_false, exists_false, or_false]

theorem callBytes_eq_error_iff {α : Type} (ts : List Token) (m n : Nat) (f : List UInt8 → α) (s : Stop) :
    (do
      let args ← bytesAt ts 3 m
      let _padding ← bytesAt ts (3 + m) n
      return f args) = .error s ↔ bytesAt ts 3 (m + n) = .error s := by
  simp only [bytesAt_add, bind_eq_error_iff, pure, Except.pure, reduceCtorEq, and_false, exists_false, or_false]

/-! ## Words -/

theorem ofMnemonic?_eq_none_iff (name : String) : Opcode.ofMnemonic? name = none ↔ ∀ o : Opcode, o.mnemonic ≠ name := by
  constructor
  · rintro h o rfl
    rw [Opcode.ofMnemonic?_mnemonic] at h
    cases h
  · intro h
    refine Option.eq_none_iff_forall_ne_some.2 fun o ho => h o ?_
    exact Opcode.mnemonic_of_ofMnemonic? ho

theorem Token.asName_eq_error_iff (t : Token) (role : Role) (s : Stop) :
    t.asName role = .error s ↔ ∃ text, t.lexeme = .integer text ∧ s = .error ⟨.expectedName role, t.span⟩ := by
  unfold asName
  cases t.lexeme with
  | name text => simp
  | integer text => simp [fail, eq_comm]

/-- The signature that an element has to be. -/
def Token.asSignature (t : Token) : Reading Signature := do
  let text ← t.asName .signature
  match Signature.parse text with
  | .ok s => .ok s
  | .error _ => fail (.invalidSignature text) t.span

theorem Token.asSignature_eq_ok_iff (t : Token) (s : Signature) :
    t.asSignature = .ok s ↔ t.lexeme = .name s.text := by
  have hone : t.asSignature = signatureAt [t] 0 := rfl
  rw [hone, signatureAt_eq_ok_iff]
  simp [lexemes]

theorem Token.asSignature_eq_error_iff (t : Token) (s : Stop) :
    t.asSignature = .error s ↔
      (∃ text, t.lexeme = .integer text ∧ s = .error ⟨.expectedName .signature, t.span⟩) ∨
      ∃ text, t.lexeme = .name text ∧ (∀ sig : Signature, sig.text ≠ text) ∧
        s = .error ⟨.invalidSignature text, t.span⟩ := by
  simp only [asSignature, bind_eq_error_iff, asName_eq_error_iff, asName_eq_ok_iff]
  refine or_congr_right (exists_congr fun text => and_congr_right fun _ => ?_)
  cases hparse : Signature.parse text with
  | ok sig =>
    have htext := (Signature.parse_eq_ok_iff text sig).1 hparse
    exact ⟨fun h => (by cases h), fun h => absurd htext.symm (h.1 sig)⟩
  | error bad =>
    have hno : ∀ sig : Signature, sig.text ≠ text := fun sig hsig => by
      rw [(Signature.parse_eq_ok_iff text sig).2 hsig.symm] at hparse
      cases hparse
    simp [fail, hno, eq_comm]

section Head

variable {head target sig : Token} {ts : List Token}

theorem tokenAt_zero (head : Token) (ts : List Token) : tokenAt (head :: ts) 0 = .ok head := rfl

theorem word_of_integer {text : String} (hh : head.lexeme = .integer text) :
    word (head :: ts) = fail .expectedOpcode head.span := by
  simp only [word, tokenAt_zero, bind, Except.bind, hh]

theorem word_of_unknown {mnemonic : String} (hh : head.lexeme = .name mnemonic)
    (ho : ∀ o : Opcode, o.mnemonic ≠ mnemonic) : word (head :: ts) = fail (.unknownOpcode mnemonic) head.span := by
  simp only [word, tokenAt_zero, bind, Except.bind, hh, (ofMnemonic?_eq_none_iff mnemonic).2 ho]

theorem word_of_call (hh : head.lexeme = .name Opcode.call.mnemonic) :
    word (head :: ts) = call head (head :: ts) := by
  simp only [word, tokenAt_zero, bind, Except.bind, hh, Opcode.ofMnemonic?_mnemonic]

theorem word_of_op {o : Opcode} (hh : head.lexeme = .name o.mnemonic) (ho : o ≠ .call) :
    word (head :: ts) = do
      let x ← byteAt (head :: ts) 1
      let y ← byteAt (head :: ts) 2
      let z ← byteAt (head :: ts) 3
      return .op o x y z := by
  simp only [word, tokenAt_zero, bind, Except.bind, hh, Opcode.ofMnemonic?_mnemonic]

theorem call_eq : call head (head :: target :: sig :: ts) = do
    let name ← target.asName .callTarget
    let signature ← sig.asSignature
    let needed := Instr.callLen signature.arity
    if ts.length + 3 < needed then
      fail (.truncatedCall needed (ts.length + 3)) (spanToEnd head (head :: target :: sig :: ts))
    else do
      let args ← bytesAt (head :: target :: sig :: ts) 3 signature.arity
      let _padding ← bytesAt (head :: target :: sig :: ts) (3 + signature.arity) (needed - (3 + signature.arity))
      return .call name signature args := rfl

theorem spanToEnd_eq {last : Token} (hlast : (sig :: ts).getLast? = some last) :
    spanToEnd head (head :: target :: sig :: ts) = ⟨head.span.start, last.span.stop⟩ := by
  rw [spanToEnd, List.getLastD_eq_getLast?, List.getLast?_cons_cons, List.getLast?_cons_cons, hlast]
  rfl

theorem call_eq_error_iff {name : String} {sgn : Signature} (ht : target.lexeme = .name name)
    (hs : sig.lexeme = .name sgn.text) (s : Stop) :
    call head (head :: target :: sig :: ts) = .error s ↔
      (ts.length + 3 < Instr.callLen sgn.arity ∧
        s = .error ⟨.truncatedCall (Instr.callLen sgn.arity) (ts.length + 3),
          spanToEnd head (head :: target :: sig :: ts)⟩) ∨
      (Instr.callLen sgn.arity ≤ ts.length + 3 ∧
        ∃ e, s = .error e ∧ ByteError (ts.take (Instr.callLen sgn.arity - 3)) e) := by
  have hcall := @call_eq head target sig ts
  rw [(Token.asName_eq_ok_iff target .callTarget name).2 ht, (Token.asSignature_eq_ok_iff sig sgn).2 hs] at hcall
  rw [hcall]
  show (if ts.length + 3 < Instr.callLen sgn.arity then _ else _) = Except.error s ↔ _
  by_cases hlen : ts.length + 3 < Instr.callLen sgn.arity
  · rw [if_pos hlen]
    simp [fail, hlen, Nat.not_le.2 hlen, eq_comm]
  · -- arguments and padding are one run of bytes, and all of it is there
    have hle := Instr.le_callLen sgn.arity
    have hpad : sgn.arity + (Instr.callLen sgn.arity - (3 + sgn.arity)) = Instr.callLen sgn.arity - 3 := by omega
    rw [if_neg hlen, callBytes_eq_error_iff, hpad, bytesAt_eq_error_iff (by simp only [List.length_cons]; omega)]
    simp [hlen, Nat.not_lt.1 hlen]

end Head

theorem wordError_of_call {head target sig : Token} {ts : List Token} {s : Stop}
    (hh : head.lexeme = .name Opcode.call.mnemonic) (h : call head (head :: target :: sig :: ts) = .error s) :
    ∃ e, s = .error e ∧ WordError (head :: target :: sig :: ts) e := by
  have hstages := h
  rw [call_eq, bind_eq_error_iff, Token.asName_eq_error_iff] at hstages
  rcases hstages with ⟨text, ht, rfl⟩ | ⟨name, ht, hstages⟩
  · exact ⟨_, rfl, .expectedTarget hh ht⟩
  rw [Token.asName_eq_ok_iff] at ht
  rw [bind_eq_error_iff, Token.asSignature_eq_error_iff] at hstages
  rcases hstages with (⟨text, hs, rfl⟩ | ⟨text, hs, hn, rfl⟩) | ⟨sgn, hs, -⟩
  · exact ⟨_, rfl, .expectedSignature hh ht hs⟩
  · exact ⟨_, rfl, .invalidSignature hh ht hs hn⟩
  rw [Token.asSignature_eq_ok_iff] at hs
  rcases (call_eq_error_iff ht hs s).1 h with ⟨hlen, rfl⟩ | ⟨hlen, e, rfl, he⟩
  · obtain ⟨last, hlast⟩ : ∃ last, (sig :: ts).getLast? = some last := ⟨_, List.getLast?_cons⟩
    rw [spanToEnd_eq hlast]
    exact ⟨_, rfl, .truncatedCall hh ht hs hlen hlast⟩
  · exact ⟨e, rfl, .argument hh ht hs hlen he⟩

/-- **A word is refused exactly for what is wrong with it**, as long as the elements are at least one word. -/
theorem word_eq_error_iff {ts : List Token} (h : wordSize ≤ ts.length) (s : Stop) :
    word ts = .error s ↔ ∃ e, s = .error e ∧ WordError ts e := by
  obtain ⟨head, target, sig, ts, rfl⟩ : ∃ head target sig rest, ts = head :: target :: sig :: rest := by
    match ts, h with
    | head :: target :: sig :: rest, _ => exact ⟨head, target, sig, rest, rfl⟩
  have hthree : 1 + 3 ≤ (head :: target :: sig :: ts).length := h
  constructor
  · intro hs
    cases hh : head.lexeme with
    | integer text =>
      rw [word_of_integer hh] at hs
      cases hs
      exact ⟨_, rfl, .expectedOpcode hh⟩
    | name mnemonic =>
      cases ho : Opcode.ofMnemonic? mnemonic with
      | none =>
        have ho := (ofMnemonic?_eq_none_iff mnemonic).1 ho
        rw [word_of_unknown hh ho] at hs
        cases hs
        exact ⟨_, rfl, .unknownOpcode hh ho⟩
      | some o =>
        rw [← Opcode.mnemonic_of_ofMnemonic? ho] at hh
        by_cases hcall : o = .call
        · subst hcall
          rw [word_of_call hh] at hs
          exact wordError_of_call hh hs
        · rw [word_of_op hh hcall, operands_eq_error_iff, bytesAt_eq_error_iff hthree] at hs
          obtain ⟨e, rfl, he⟩ := hs
          exact ⟨e, rfl, .operand hh hcall he⟩
  · rintro ⟨e, rfl, he⟩
    cases he with
    | expectedOpcode hh => rw [word_of_integer hh]; rfl
    | unknownOpcode hh ho => rw [word_of_unknown hh ho]; rfl
    | operand hh ho he =>
      rw [word_of_op hh ho, operands_eq_error_iff, bytesAt_eq_error_iff hthree]
      exact ⟨e, rfl, he⟩
    | expectedTarget hh ht =>
      rw [word_of_call hh, call_eq, (Token.asName_eq_error_iff target .callTarget _).2 ⟨_, ht, rfl⟩]
      rfl
    | expectedSignature hh ht hs =>
      rw [word_of_call hh, call_eq, (Token.asName_eq_ok_iff target .callTarget _).2 ht,
        (Token.asSignature_eq_error_iff sig _).2 (.inl ⟨_, hs, rfl⟩)]
      rfl
    | invalidSignature hh ht hs hn =>
      rw [word_of_call hh, call_eq, (Token.asName_eq_ok_iff target .callTarget _).2 ht,
        (Token.asSignature_eq_error_iff sig _).2 (.inr ⟨_, hs, hn, rfl⟩)]
      rfl
    | truncatedCall hh ht hs hlen hlast =>
      rw [word_of_call hh, ← spanToEnd_eq hlast]
      exact (call_eq_error_iff ht hs _).2 (.inl ⟨hlen, rfl⟩)
    | argument hh ht hs hlen he =>
      rw [word_of_call hh]
      exact (call_eq_error_iff ht hs _).2 (.inr ⟨hlen, e, rfl, he⟩)

theorem length_pos_of_wordError {ts : List Token} {e : Error} (h : WordError ts e) : 0 < ts.length := by
  cases h <;> exact Nat.succ_pos _

theorem words_of_word_eq_error {ts : List Token} {s : Stop} (hne : 0 < ts.length) (h : word ts = .error s) :
    words ts = .error s := by
  cases ts with
  | nil => cases hne
  | cons t ts => rw [words, h]

theorem words_append {is : List SymbolicInstr} {front : List Token} (h : Spelling is (lexemes front))
    (rest : List Token) : words (front ++ rest) = (words rest).map (is ++ ·) := by
  induction is generalizing front with
  | nil =>
    have hnil : front = [] := List.map_eq_nil_iff.1 ((spelling_nil_iff _).1 h)
    rw [hnil, List.nil_append]
    cases words rest <;> rfl
  | cons i is ih =>
    -- the first word takes its own elements, and those of the front that are left spell the others
    obtain ⟨part, more, hi, his, hfront⟩ := (spelling_cons_iff i is _).1 h
    have hall : lexemes (front ++ rest) = part ++ (more ++ lexemes rest) := by
      rw [lexemes, List.map_append, ← lexemes, hfront, List.append_assoc]
      rfl
    have hlen : i.encodedLen ≤ front.length := by
      rw [← length_lexemes, hfront, List.length_append, hi.length_eq]
      exact Nat.le_add_right _ _
    have hmore : lexemes (front.drop i.encodedLen) = more := by
      rw [lexemes, List.map_drop, ← lexemes, hfront, List.drop_left' hi.length_eq]
    have hword := word_of_spells hi hall
    obtain ⟨t, ts, hts⟩ : ∃ t ts, front ++ rest = t :: ts := by
      refine List.exists_cons_of_length_pos ?_
      rw [List.length_append]
      have := i.encodedLen_pos
      omega
    rw [hts] at hword
    rw [hts, words, hword]
    simp only
    rw [← hts, List.drop_append_of_le_length hlen, ih (hmore ▸ his)]
    cases words rest <;> rfl

/-- **Words are refused for the first of them that is wrong**: those in front of it are read. -/
theorem words_eq_error_iff {ts : List Token} (h : wordSize ∣ ts.length) (s : Stop) :
    words ts = .error s ↔ ∃ e, s = .error e ∧
      ∃ is front rest, ts = front ++ rest ∧ Spelling is (lexemes front) ∧ WordError rest e := by
  constructor
  · intro hs
    fun_induction words ts with
    | case1 => cases hs
    | case2 t ts stop hword =>
      cases hs
      have hpos : 0 < (t :: ts).length := Nat.succ_pos _
      obtain ⟨e, rfl, he⟩ := (word_eq_error_iff (Nat.le_of_dvd hpos h) _).1 hword
      exact ⟨e, rfl, [], [], _, rfl, (spelling_nil_iff _).2 rfl, he⟩
    | case3 t ts i hword stop hwords ih =>
      cases hs
      -- the word in front is read: it is whole, so whole words are left behind it
      have hdvd : wordSize ∣ ((t :: ts).drop i.encodedLen).length := by
        rw [List.length_drop]
        exact Nat.dvd_sub h i.dvd_encodedLen
      obtain ⟨e, rfl, is, front, rest, hdrop, hspell, he⟩ := ih hdvd hwords
      obtain ⟨part, hi, hts⟩ := spells_of_word hword
      refine ⟨e, rfl, i :: is, (t :: ts).take i.encodedLen ++ front, rest, ?_, ?_, he⟩
      · rw [List.append_assoc, ← hdrop, List.take_append_drop]
      · refine (spelling_cons_iff i is _).2 ⟨part, lexemes front, hi, hspell, ?_⟩
        have htake : lexemes ((t :: ts).take i.encodedLen) = part := by
          rw [lexemes, List.map_take, ← lexemes, hts, List.take_left' hi.length_eq]
        rw [lexemes, List.map_append, ← lexemes, htake]
        rfl
    | case4 => cases hs
  · rintro ⟨e, rfl, is, front, rest, rfl, hspell, he⟩
    have hpos := length_pos_of_wordError he
    have hdvd : wordSize ∣ rest.length := by
      rw [List.length_append, ← length_lexemes front] at h
      exact (Nat.dvd_add_right hspell.dvd_length).1 h
    have hword := (word_eq_error_iff (Nat.le_of_dvd hpos hdvd) (.error e)).2 ⟨e, rfl, he⟩
    rw [words_append hspell, words_of_word_eq_error hpos hword]
    rfl

end Wordcode.Listing
