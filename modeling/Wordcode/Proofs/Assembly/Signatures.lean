import Mathlib.Data.Set.List
import Wordcode.Proofs.Assembly.Registrations
import Wordcode.Proofs.Assembly.Slots
import Wordcode.Proofs.Assembly.Tiling
import Wordcode.Proofs.Listing.Places
/-!
# Proofs.Assembly.Signatures — a signature is its text

A text reads as a signature exactly if its letters are those of one (`exists_parse_eq_ok_iff`), and then it is the text
of that signature and of no other (`text_injective`).  A registry tells signatures apart by value, so an index stands
for a text: among the signatures of a target (`Keeps.index_eq_iff`), as they are registered (`Keeps.indexesTexts`), and
at the calls of a program, whose listings write the texts (`HasCall.signature?`).
-/
namespace Wordcode

theorem ValueKind.exists_letter_iff {c : Char} : (∃ k : ValueKind, k.letter = c) ↔ c ∈ ['i', 'f', 'd'] := by
  constructor
  · rintro ⟨k, rfl⟩
    cases k <;> decide
  · intro hc
    rcases List.mem_cons.1 hc with rfl | hc
    · exact ⟨int, rfl⟩
    rcases List.mem_cons.1 hc with rfl | hc
    · exact ⟨float, rfl⟩
    · exact ⟨double, (List.mem_singleton.1 hc).symm⟩

namespace Signature

/-- **The letters of a signature**: `v` or the letter of a kind, and then any number of letters of kinds. -/
def Letters : List Char → Prop
  | [] => False
  | ret :: params => ret ∈ ['v', 'i', 'f', 'd'] ∧ ∀ c ∈ params, c ∈ ['i', 'f', 'd']

-- the second half goes through the list: another instance goes through all characters
instance : DecidablePred Letters
  | [] => isFalse id
  | _ :: _ => @instDecidableAnd _ _ inferInstance (List.decidableBAll _ _)

theorem exists_retLetter_iff {c : Char} : (∃ r, retLetter r = c) ↔ c ∈ ['v', 'i', 'f', 'd'] := by
  rw [Option.exists, List.mem_cons, ← ValueKind.exists_letter_iff]
  exact or_congr_left eq_comm

theorem exists_chars_iff {cs : List Char} : (∃ s : Signature, s.chars = cs) ↔ Letters cs := by
  cases cs with
  | nil => simp [chars, Letters]
  | cons ret params =>
    constructor
    · rintro ⟨s, hs⟩
      obtain ⟨hret, hparams⟩ := List.cons.inj hs
      refine ⟨exists_retLetter_iff.1 ⟨s.ret, hret⟩, fun c hc => ?_⟩
      obtain ⟨k, -, hk⟩ := List.mem_map.1 (hparams ▸ hc)
      exact ValueKind.exists_letter_iff.1 ⟨k, hk⟩
    · rintro ⟨hret, hparams⟩
      obtain ⟨r, rfl⟩ := exists_retLetter_iff.2 hret
      have hkinds : params ∈ Set.range (List.map ValueKind.letter) := by
        rw [Set.range_list_map]
        exact fun c hc => ValueKind.exists_letter_iff.2 (hparams c hc)
      obtain ⟨kinds, rfl⟩ := hkinds
      exact ⟨⟨r, kinds⟩, rfl⟩

/-- **A text reads as a signature exactly if its letters are those of one.** -/
theorem exists_parse_eq_ok_iff {t : String} : (∃ s, parse t = .ok s) ↔ Letters t.toList := by
  rw [← exists_chars_iff]
  refine exists_congr fun s => ?_
  rw [parse_eq_ok_iff, text]
  constructor
  · rintro rfl
    rw [String.toList_ofList]
  · intro hs
    rw [hs, String.ofList_toList]

theorem parse_eq_error_iff {t : String} {e : InvalidSignature} :
    parse t = .error e ↔ ¬ Letters t.toList ∧ e = ⟨t⟩ := by
  rw [← exists_parse_eq_ok_iff, parse]
  cases ofChars? t.toList with
  | none => simp [eq_comm]
  | some s => simp

theorem text_injective : Function.Injective text := by
  intro s s' h
  have hs := (parse_eq_ok_iff s.text s).2 rfl
  have hs' := (parse_eq_ok_iff s.text s').2 h
  exact Except.ok.inj (hs.symm.trans hs')

theorem length_text (s : Signature) : s.text.length = s.arity + 1 := by
  rw [text, String.length_ofList, chars, List.length_cons, List.length_map, arity]

theorem utf8Size_of_mem_chars {s : Signature} : ∀ c ∈ s.chars, c.utf8Size = 1 := by
  have hkind : ∀ k : ValueKind, k.letter.utf8Size = 1 := fun k => by cases k <;> rfl
  intro c hc
  rcases List.mem_cons.1 hc with rfl | hc
  · cases s.ret with
    | none => rfl
    | some k => exact hkind k
  · obtain ⟨k, -, rfl⟩ := List.mem_map.1 hc
    exact hkind k

theorem utf8ByteSize_text (s : Signature) : s.text.utf8ByteSize = s.arity + 1 := by
  rw [Listing.utf8ByteSize_eq, text, String.toList_ofList, Text.byteLen_eq_length_iff.2 utf8Size_of_mem_chars,
    ← s.length_text, text, String.length_ofList]

end Signature

namespace Registry

variable {calls : List (UInt8 × Signature)} {r : Registry}

/-- **An index stands for a text**: of two texts that read, one is registered for a target now and the other after any
more registrations, and if both get an index, it is the same exactly if the texts are. -/
def IndexesTexts (r : Registry) : Prop :=
  ∀ (target : UInt8) (t t' : String) (s s' : Signature) (more : List (UInt8 × Signature)) (index index' : UInt8),
    Signature.parse t = .ok s → Signature.parse t' = .ok s' → (r.register target s).1 = some index →
      (((r.register target s).2.registerAll more).register target s').1 = some index' → (index = index' ↔ t = t')

/-- **No text has two indices**, and no index has two texts. -/
theorem Keeps.index_eq_iff (h : r.Keeps calls) {target index index' : UInt8} {s s' : Signature}
    (hs : r.signature? target index = some s) (hs' : r.signature? target index' = some s') :
    index = index' ↔ s.text = s'.text := by
  constructor
  · rintro rfl
    rw [Option.some.inj (hs.symm.trans hs')]
  · intro htext
    obtain rfl := Signature.text_injective htext
    obtain ⟨hlt, -⟩ := List.getElem?_eq_some_iff.1 hs
    exact UInt8.toNat_inj.1 ((List.getElem?_inj hlt (h.nodup target)).1 (hs.trans hs'.symm))

theorem Keeps.indexesTexts (h : r.Keeps calls) : r.IndexesTexts := by
  intro target t t' s s' more index index' hs hs' hindex hindex'
  have hlater := (h.register target s).registerAll more
  have hend := hlater.register target s'
  -- at the end, both indices still mean the signatures that they were given out for
  have hfirst := ((extends_registerAll _ more).trans (extends_register _ target s')).signature?_eq
    (signature?_register h.bounded hindex)
  have hsecond := signature?_register hlater.bounded hindex'
  rw [hend.index_eq_iff hfirst hsecond, (Signature.parse_eq_ok_iff t s).1 hs, (Signature.parse_eq_ok_iff t' s').1 hs']

end Registry

theorem Listing.Spelling.call {is : List SymbolicInstr} {ls : List Lexeme} {k : Nat} {name : String} {s : Signature}
    {args : List UInt8} (h : Spelling (is.drop k) ls) (hi : is[k]? = some (.call name s args)) :
    ∃ rest, ls = .name Opcode.call.mnemonic :: .name name :: .name s.text :: rest := by
  rw [(getElem?_eq_some_iff_drop is k _).1 hi] at h
  obtain ⟨part, behind, hpart, -, rfl⟩ := (spelling_cons_iff _ _ _).1 h
  cases hpart
  exact ⟨_, rfl⟩

namespace Assembler

variable {symbols : SymbolTable} {pairs : List (String × String)}

/-- **The calls of a run**, each by its target, the index of its signature and how that is written: one of the listings,
added behind those in front of it, makes a function that has the call, and at the call's address the listing has its
mnemonic, the name of its target and the text of its signature. -/
inductive HasCall (symbols : SymbolTable) (pairs : List (String × String)) (target index : UInt8) (text : String) : Prop
  | intro {before behind : List (String × String)} {name listing : String} {b : Assembler} {f : AssembledFunction}
      {ts : List Listing.Token} {k : Nat} {args : List UInt8} {callee : String} {rest : List Listing.Lexeme}
      (split : pairs = before ++ (name, listing) :: behind)
      (added : (empty.addEach symbols before).addFunction symbols name listing = (.ok (), b))
      (made : b.functions = (empty.addEach symbols before).functions ++ [f])
      (call : f.instructions[k]? = some (.call target index args)) (elements : Listing.tokens listing = .ok ts)
      (known : symbols.nameOf? target = some callee)
      (written : (Listing.lexemes ts).drop (f.address k) =
        .name Opcode.call.mnemonic :: .name callee :: .name text :: rest)

theorem exists_keeps_addFunction {a : Assembler} (name listing : String) (h : ∃ calls, a.registry.Keeps calls) :
    ∃ calls, (a.addFunction symbols name listing).2.registry.Keeps calls := by
  obtain ⟨calls, h⟩ := h
  have hadd := added symbols a name listing
  generalize a.addFunction symbols name listing = out at hadd ⊢
  cases hadd with
  | skipped | refused => exact ⟨calls, h⟩
  | @failed is f r hp hr =>
    obtain ⟨-, -, -, -, rfl, -, -⟩ := resolveAll_eq_error_iff.1 hr
    exact ⟨_, h.registerAll _⟩
  | @appended is js r hp hr =>
    obtain ⟨entries, -, rfl⟩ := numbered_of_resolveAll hr
    exact ⟨_, h.registerAll entries⟩

theorem exists_keeps_addEach (symbols : SymbolTable) (pairs : List (String × String)) :
    ∃ calls, (empty.addEach symbols pairs).registry.Keeps calls :=
  addEach_induction (P := fun a => ∃ calls, a.registry.Keeps calls)
    (fun _ name listing h => exists_keeps_addFunction name listing h) pairs ⟨[], Registry.keeps_empty⟩

theorem written_of_addFunction {a b : Assembler} (ha : a.registry.Bounded) {name listing : String}
    (hadd : a.addFunction symbols name listing = (.ok (), b)) {f : AssembledFunction}
    (hf : b.functions = a.functions ++ [f]) {k : Nat} {target index : UInt8} {args : List UInt8}
    (hcall : f.instructions[k]? = some (.call target index args)) :
    ∃ ts callee s rest, Listing.tokens listing = .ok ts ∧ symbols.nameOf? target = some callee ∧
      b.registry.signature? target index = some s ∧
      (Listing.lexemes ts).drop (f.address k) =
        .name Opcode.call.mnemonic :: .name callee :: .name s.text :: rest := by
  have hadded := added symbols a name listing
  rw [hadd] at hadded
  cases hadded with
  | skipped => exact absurd hf (by simp [warn])
  | @appended is js r hp hr =>
    obtain rfl := List.singleton_inj.1 (List.append_cancel_left hf)
    obtain ⟨ts, hts, hspell, -⟩ := Listing.exists_tokens_of_parse hp
    have hjs := mapM_symbolic?_resolveAll symbols name ha hr
    obtain ⟨i, hi, hji⟩ := getElem?_of_mapM_eq_some hjs hcall
    obtain ⟨callee, s, hname, hs, rfl⟩ := (symbolic?_call_eq_some_iff symbols).1 hji
    obtain ⟨rest, hrest⟩ := (Listing.spelling_drop hspell hjs k).call hi
    rw [← AssembledFunction.address_place] at hrest
    exact ⟨ts, callee, s, rest, hts, hname, hs, hrest⟩

/-- **The registry at the end of a run has the signature of each call**, and that is as the listing writes it. -/
theorem HasCall.signature? {target index : UInt8} {text : String} (h : HasCall symbols pairs target index text) :
    ∃ s, (empty.addEach symbols pairs).registry.signature? target index = some s ∧ s.text = text := by
  obtain ⟨split, added, made, call, elements, -, written⟩ := h
  rename_i before behind name listing b f ts k args callee rest
  have hbounded := ((sound_empty symbols).addEach before).bounded
  obtain ⟨ts', callee', s, rest', hts, -, hs, hwritten⟩ := written_of_addFunction hbounded added made call
  -- both texts are the third of the same elements
  obtain rfl := Except.ok.inj (elements.symm.trans hts)
  have htext := written.symm.trans hwritten
  have hext : b.registry.Extends (empty.addEach symbols pairs).registry := by
    rw [split, addEach_append, addEach_cons, added]
    exact (grows_addEach b behind).signatures
  refine ⟨s, hext.signature?_eq hs, ?_⟩
  cases htext
  rfl

/-- A function at the end of a run was there at its start, or was made by one of the listings. -/
theorem mem_functions_addEach {a : Assembler} {f : AssembledFunction} (h : f ∈ (a.addEach symbols pairs).functions) :
    f ∈ a.functions ∨ ∃ before behind name listing b, pairs = before ++ (name, listing) :: behind ∧
      (a.addEach symbols before).addFunction symbols name listing = (.ok (), b) ∧
      b.functions = (a.addEach symbols before).functions ++ [f] := by
  induction pairs generalizing a with
  | nil => exact .inl h
  | cons pair more ih =>
    rw [addEach_cons] at h
    rcases ih h with hfirst | ⟨before, behind, name, listing, b, rfl, hb⟩
    · -- there behind the first of the listings: made by it, or there before it
      have hadd := added symbols a pair.1 pair.2
      generalize hout : a.addFunction symbols pair.1 pair.2 = out at hadd hfirst
      cases hadd with
      | skipped | refused | failed => exact .inl hfirst
      | appended =>
        rcases List.mem_append.1 hfirst with hold | hnew
        · exact .inl hold
        · rw [List.mem_singleton.1 hnew]
          exact .inr ⟨[], more, pair.1, pair.2, _, rfl, hout, rfl⟩
    · exact .inr ⟨pair :: before, behind, name, listing, b, rfl, hb⟩

theorem HasCall.mem {target index : UInt8} {text : String} (h : HasCall symbols pairs target index text) :
    ∃ f ∈ (empty.addEach symbols pairs).program.functions, ∃ args, .call target index args ∈ f.instructions := by
  obtain ⟨split, added, made, call, -, -, -⟩ := h
  rename_i before behind name listing b f ts k args callee rest
  refine ⟨f, ?_, args, List.mem_of_getElem? call⟩
  show f ∈ (empty.addEach symbols pairs).functions
  rw [split, addEach_append, addEach_cons, added]
  exact (grows_addEach b behind).functions.subset (by simp [made])

theorem exists_hasCall {f : AssembledFunction} (hf : f ∈ (empty.addEach symbols pairs).program.functions)
    {target index : UInt8} {args : List UInt8} (hcall : .call target index args ∈ f.instructions) :
    ∃ text, HasCall symbols pairs target index text := by
  rcases mem_functions_addEach hf with hnone | ⟨before, behind, name, listing, b, hsplit, hadd, hmade⟩
  · cases hnone
  · obtain ⟨k, hk⟩ := List.getElem?_of_mem hcall
    have hbounded := ((sound_empty symbols).addEach before).bounded
    obtain ⟨ts, callee, s, rest, hts, hname, -, hwritten⟩ := written_of_addFunction hbounded hadd hmade hk
    exact ⟨s.text, .intro hsplit hadd hmade hk hts hname hwritten⟩

theorem hasCall_of_mem {f : AssembledFunction} (hf : f ∈ (empty.addEach symbols pairs).program.functions)
    {target index : UInt8} {args : List UInt8} (hcall : .call target index args ∈ f.instructions) {s : Signature}
    (hs : (empty.addEach symbols pairs).program.registry.signature? target index = some s) :
    HasCall symbols pairs target index s.text := by
  obtain ⟨text, h⟩ := exists_hasCall hf hcall
  obtain ⟨s', hs', rfl⟩ := h.signature?
  rw [Option.some.inj (hs.symm.trans hs')]
  exact h

end Assembler

/-- **Signatures are their texts.**  A signature is read back from its text; a text reads exactly if its letters are
those of a signature, and then it is the text of what it reads as, of one-byte letters, one more than that has
parameters.  So indices stand for texts: in a registry after any registrations, and at the calls of the program that
any listings make, where two calls of a target have the same index exactly if their listings write the same text. -/
theorem signatures_are_their_texts :
    (∀ s : Signature, Signature.parse s.text = .ok s) ∧
    (∀ t : String, ((∃ s, Signature.parse t = .ok s) ↔ Signature.Letters t.toList) ∧
      (Signature.parse t = .error ⟨t⟩ ↔ ¬ Signature.Letters t.toList) ∧
      ∀ s, Signature.parse t = .ok s → s.text = t ∧ s.arity + 1 = t.length ∧ t.utf8ByteSize = t.length) ∧
    (∀ calls : List (UInt8 × Signature), (Registry.empty.registerAll calls).IndexesTexts) ∧
    ∀ (symbols : SymbolTable) (pairs : List (String × String)) (target : UInt8),
      (∀ index, (∃ text, Assembler.HasCall symbols pairs target index text) ↔
        ∃ f ∈ (Assembler.empty.addEach symbols pairs).program.functions, ∃ args,
          .call target index args ∈ f.instructions) ∧
      ∀ index index' text text', Assembler.HasCall symbols pairs target index text →
        Assembler.HasCall symbols pairs target index' text' → (index = index' ↔ text = text') := by
  refine ⟨fun s => (Signature.parse_eq_ok_iff s.text s).2 rfl, fun t => ⟨Signature.exists_parse_eq_ok_iff, ?_, ?_⟩,
    fun calls => (Registry.keeps_empty.registerAll calls).indexesTexts, fun symbols pairs target => ⟨?_, ?_⟩⟩
  · rw [Signature.parse_eq_error_iff, and_iff_left rfl]
  · intro s hs
    obtain rfl := (Signature.parse_eq_ok_iff t s).1 hs
    rw [s.length_text, s.utf8ByteSize_text]
    exact ⟨rfl, rfl, rfl⟩
  · intro index
    constructor
    · rintro ⟨text, h⟩
      exact h.mem
    · rintro ⟨f, hf, args, hcall⟩
      exact Assembler.exists_hasCall hf hcall
  · intro index index' text text' h h'
    obtain ⟨calls, hkeeps⟩ := Assembler.exists_keeps_addEach symbols pairs
    obtain ⟨s, hs, rfl⟩ := h.signature?
    obtain ⟨s', hs', rfl⟩ := h'.signature?
    exact hkeeps.index_eq_iff hs hs'

/-- Calls of one target in two functions, with a listing between them that does not read. -/
theorem signatures_are_their_texts_two_functions :
    ∃ (symbols : SymbolTable) (pairs : List (String × String)),
      Assembler.HasCall symbols pairs 0 0 "vi" ∧ Assembler.HasCall symbols pairs 0 1 "vid" ∧
      (∀ index, Assembler.HasCall symbols pairs 0 index "vid" → index = 1) ∧
      (∀ text, Assembler.HasCall symbols pairs 0 0 text → text = "vi") ∧
      Signature.parse "vid" = .ok ⟨none, [.int, .double]⟩ ∧
      (⟨none, [.int, .double]⟩ : Signature).text = "vid" ∧ Signature.parse "iv" = .error ⟨"iv"⟩ := by
  obtain ⟨symbols, hsymbols⟩ : ∃ symbols : SymbolTable, symbols = ⟨["_g"], by decide, by decide⟩ := ⟨_, rfl⟩
  obtain ⟨pairs, hpairs⟩ : ∃ pairs, pairs =
    [("_f", "[\"FUNC\", 1, 0, 0, \"CALL\", \"_g\", \"vi\", 0]"), ("_k", "[]]"),
      ("_h", "[\"FUNC\", 1, 0, 0, \"CALL\", \"_g\", \"vid\", 7, 8, 9, 0, 0, \"CALL\", \"_g\", \"vi\", 1]")] := ⟨_, rfl⟩
  have hprogram : (Assembler.empty.addEach symbols pairs).program =
      ⟨[255, 1, 0, 0, 253, 0, 0, 0, 255, 1, 0, 0, 253, 0, 1, 7, 8, 0, 0, 0, 253, 0, 0, 1],
        [⟨"_f", 0, 8, 1, [.op .prologue 1 0 0, .call 0 0 [0]]⟩,
          ⟨"_h", 8, 16, 1, [.op .prologue 1 0 0, .call 0 1 [7, 8], .call 0 0 [1]]⟩],
        ⟨[(0, ⟨none, [.int]⟩), (0, ⟨none, [.int, .double]⟩)]⟩⟩ := by
    rw [hsymbols, hpairs]
    decide +kernel
  have hfirst := congrArg (fun p : Program => p.functions[0]?) hprogram
  have hlast := congrArg (fun p : Program => p.functions[1]?) hprogram
  have hvi : Assembler.HasCall symbols pairs 0 0 (Signature.text ⟨none, [.int]⟩) := by
    refine Assembler.hasCall_of_mem (List.mem_of_getElem? hfirst) (List.mem_cons_of_mem _ List.mem_cons_self) ?_
    rw [hprogram]
    rfl
  have hvid : Assembler.HasCall symbols pairs 0 1 (Signature.text ⟨none, [.int, .double]⟩) := by
    refine Assembler.hasCall_of_mem (List.mem_of_getElem? hlast) (List.mem_cons_of_mem _ List.mem_cons_self) ?_
    rw [hprogram]
    rfl
  obtain ⟨-, hparse, -, hcalls⟩ := signatures_are_their_texts
  have hread : Signature.parse "vid" = .ok ⟨none, [.int, .double]⟩ := by decide +kernel
  have hbehind : ¬ Signature.Letters "iv".toList := by decide +kernel
  have htext := ((hparse "vid").2.2 _ hread).1
  refine ⟨symbols, pairs, hvi, htext ▸ hvid, ?_, ?_, hread, htext, (hparse "iv").2.1.2 hbehind⟩
  · exact fun index h => ((hcalls symbols pairs 0).2 index 1 _ _ h (htext ▸ hvid)).2 rfl
  · exact fun text h => ((hcalls symbols pairs 0).2 0 0 text "vi" h hvi).1 rfl

end Wordcode
