import Wordcode.Proofs.Listing.Errors
/-!
# Proofs.Listing.Bounds — no element beyond the last is looked at

Words can also be read at a cursor that moves over all elements of a listing.  Each element is then looked at by its own
index, and a record is kept of every look, also of those that lead to an error (`lookWord`, `lookWords`).  At a whole
number of words in front of the end this reads what `word` reads from the elements that are left, stays within them, and
looks at every element of an instruction that is read (`stepped`).  So all turns of the loop are at whole numbers of
words, and there are no more of them than words and the end (`walked_lookWords`).
-/
namespace Wordcode.Listing

/-! ## Looking at elements -/

/-- A reading with the indices that it looks at on the way. -/
structure Looking (α : Type) where
  looks : List Nat
  result : Reading α
deriving DecidableEq, Repr

namespace Looking

variable {α β : Type}

def still (result : Reading α) : Looking α := ⟨[], result⟩

/-- What has been looked at stays looked at, also if the reading stops there. -/
def andThen (x : Looking α) (f : α → Looking β) : Looking β :=
  match x.result with
  | .ok a => ⟨x.looks ++ (f a).looks, (f a).result⟩
  | .error stop => ⟨x.looks, .error stop⟩

instance : Monad Looking where
  pure a := still (.ok a)
  bind := andThen

theorem bind_of_ok {x : Looking α} {a : α} (h : x.result = .ok a) (f : α → Looking β) :
    x >>= f = ⟨x.looks ++ (f a).looks, (f a).result⟩ := by
  show x.andThen f = _
  rw [andThen, h]

theorem bind_of_error {x : Looking α} {stop : Stop} (h : x.result = .error stop) (f : α → Looking β) :
    x >>= f = ⟨x.looks, .error stop⟩ := by
  show x.andThen f = _
  rw [andThen, h]

theorem result_bind (x : Looking α) (f : α → Looking β) : (x >>= f).result = x.result >>= fun a => (f a).result := by
  cases h : x.result with
  | error stop => rw [bind_of_error h]; rfl
  | ok a => rw [bind_of_ok h]; rfl

theorem of_bind_eq_ok {x : Looking α} {f : α → Looking β} {b : β} (h : (x >>= f).result = .ok b) :
    ∃ a, x.result = .ok a ∧ (f a).result = .ok b ∧ (x >>= f).looks = x.looks ++ (f a).looks := by
  rw [result_bind] at h
  obtain ⟨a, ha, hb⟩ := bind_eq_ok_iff.1 h
  exact ⟨a, ha, hb, congrArg looks (bind_of_ok ha f)⟩

/-- Nothing is looked at beyond the first `n` elements. -/
def Within (n : Nat) (x : Looking α) : Prop := ∀ index ∈ x.looks, index < n

theorem within_still (n : Nat) (result : Reading α) : (still result).Within n := fun _ h => by cases h

/-- **Going on stays within what the way so far stays within.** -/
theorem Within.bind {n : Nat} {x : Looking α} {f : α → Looking β} (hx : x.Within n)
    (hf : ∀ a, x.result = .ok a → (f a).Within n) : (x >>= f).Within n := by
  cases h : x.result with
  | error stop => rwa [bind_of_error h]
  | ok a =>
    rw [bind_of_ok h]
    exact List.forall_mem_append.2 ⟨hx, hf a h⟩

end Looking

open Looking (still)

/-- The element at an index. -/
def look (ts : List Token) (index : Nat) : Looking Token := ⟨[index], tokenAt ts index⟩

def lookName (ts : List Token) (index : Nat) (role : Role) : Looking String := do
  let t ← look ts index
  still (t.asName role)

def lookByte (ts : List Token) (index : Nat) : Looking UInt8 := do
  let t ← look ts index
  still t.asByte

/-- The `count` bytes from an index on. -/
def lookBytes (ts : List Token) (index : Nat) : Nat → Looking (List UInt8)
  | 0 => pure []
  | count + 1 => do
    let b ← lookByte ts index
    let bs ← lookBytes ts (index + 1) count
    return b :: bs

/-- The signature at an index; its element is looked at twice. -/
def lookSignature (ts : List Token) (index : Nat) : Looking Signature := do
  let t ← look ts index
  let text ← lookName ts index .signature
  match Signature.parse text with
  | .ok s => pure s
  | .error _ => still (fail (.invalidSignature text) t.span)

/-- The call at a cursor, and where to go on. -/
def lookCall (ts : List Token) (cursor : Nat) (head : Token) : Looking (SymbolicInstr × Nat) := do
  let target ← lookName ts (cursor + 1) .callTarget
  let signature ← lookSignature ts (cursor + 2)
  let needed := Instr.callLen signature.arity
  if ts.length - cursor < needed then do
    let last ← look ts (ts.length - 1)
    still (fail (.truncatedCall needed (ts.length - cursor)) ⟨head.span.start, last.span.stop⟩)
  else do
    let args ← lookBytes ts (cursor + 3) signature.arity
    let _padding ← lookBytes ts (cursor + (3 + signature.arity)) (needed - (3 + signature.arity))
    return (.call target signature args, cursor + needed)

def lookOperands (ts : List Token) (cursor : Nat) (opcode : Opcode) : Looking (SymbolicInstr × Nat) := do
  let x ← lookByte ts (cursor + 1)
  let y ← lookByte ts (cursor + 2)
  let z ← lookByte ts (cursor + 3)
  return (.op opcode x y z, cursor + wordSize)

def lookBehind (ts : List Token) (cursor : Nat) (head : Token) : Looking (SymbolicInstr × Nat) :=
  match head.lexeme with
  | .integer _ => still (fail .expectedOpcode head.span)
  | .name mnemonic =>
    match Opcode.ofMnemonic? mnemonic with
    | none => still (fail (.unknownOpcode mnemonic) head.span)
    | some opcode => if opcode = .call then lookCall ts cursor head else lookOperands ts cursor opcode

/-- **The instruction at a cursor**, and where to go on. -/
def lookWord (ts : List Token) (cursor : Nat) : Looking (SymbolicInstr × Nat) := do
  let head ← look ts cursor
  lookBehind ts cursor head

theorem lookBehind_cases (ts : List Token) (cursor : Nat) (head : Token) :
    (∃ stop, lookBehind ts cursor head = still (.error stop)) ∨ lookBehind ts cursor head = lookCall ts cursor head ∨
      ∃ opcode, lookBehind ts cursor head = lookOperands ts cursor opcode := by
  unfold lookBehind
  split
  · exact .inl ⟨_, rfl⟩
  split
  · exact .inl ⟨_, rfl⟩
  split
  · exact .inr (.inl rfl)
  · exact .inr (.inr ⟨_, rfl⟩)

/-! ## What is read -/

section Results

variable (ts : List Token) (index : Nat)

theorem result_lookName (role : Role) : (lookName ts index role).result = nameAt ts index role := by
  rw [lookName, Looking.result_bind]
  rfl

theorem result_lookByte : (lookByte ts index).result = byteAt ts index := by
  rw [lookByte, Looking.result_bind]
  rfl

theorem result_lookBytes (count : Nat) : (lookBytes ts index count).result = bytesAt ts index count := by
  induction count generalizing index with
  | zero => rfl
  | succ count ih =>
    rw [lookBytes, bytesAt, Looking.result_bind, result_lookByte]
    refine congrArg _ (funext fun b => ?_)
    rw [Looking.result_bind, ih]
    rfl

theorem result_lookSignature : (lookSignature ts index).result = signatureAt ts index := by
  rw [lookSignature, signatureAt, Looking.result_bind]
  show tokenAt ts index >>= _ = tokenAt ts index >>= _
  cases ht : tokenAt ts index with
  | error stop => rfl
  | ok t =>
    have hname : (lookName ts index .signature).result = t.asName .signature := by
      rw [result_lookName, nameAt, ht]
      rfl
    show Looking.result (lookName ts index .signature >>= _) = t.asName .signature >>= _
    rw [Looking.result_bind, hname]
    refine congrArg _ (funext fun text => ?_)
    cases Signature.parse text <;> rfl

variable {ts} {cursor : Nat}

theorem tokenAt_drop (h : cursor + index < ts.length) :
    tokenAt (ts.drop cursor) index = tokenAt ts (cursor + index) := by
  rw [tokenAt, tokenAt, List.getElem?_drop, List.getElem?_eq_getElem h]

theorem bytesAt_drop {count : Nat} (h : cursor + index + count ≤ ts.length) :
    bytesAt (ts.drop cursor) index count = bytesAt ts (cursor + index) count := by
  induction count generalizing index with
  | zero => rfl
  | succ count ih =>
    rw [bytesAt, bytesAt, byteAt, byteAt, tokenAt_drop index (by omega), ih (index + 1) (by omega), Nat.add_assoc]

end Results

variable {ts : List Token} {cursor : Nat}

/-- Where a reading of an instruction goes on. -/
def advance (cursor : Nat) (result : Reading SymbolicInstr) : Reading (SymbolicInstr × Nat) :=
  result.map fun i => (i, cursor + i.encodedLen)

theorem result_lookCall (h : cursor + wordSize ≤ ts.length) (head : Token) :
    (lookCall ts cursor head).result = advance cursor (call head (ts.drop cursor)) := by
  have h : cursor + 4 ≤ ts.length := h
  have hname : nameAt (ts.drop cursor) 1 .callTarget = nameAt ts (cursor + 1) .callTarget := by
    rw [nameAt, nameAt, tokenAt_drop 1 (by omega)]
  have hsignature : signatureAt (ts.drop cursor) 2 = signatureAt ts (cursor + 2) := by
    rw [signatureAt, signatureAt, tokenAt_drop 2 (by omega)]
  rw [lookCall, call, hname, hsignature, Looking.result_bind, result_lookName]
  cases nameAt ts (cursor + 1) .callTarget with
  | error stop => rfl
  | ok target =>
    show Looking.result (lookSignature ts (cursor + 2) >>= _) = _
    rw [Looking.result_bind, result_lookSignature]
    cases signatureAt ts (cursor + 2) with
    | error stop => rfl
    | ok s =>
      show Looking.result (if _ then _ else _) = advance cursor (if _ then _ else _)
      rw [List.length_drop]
      split
      · obtain ⟨last, hlast⟩ : ∃ last, ts[ts.length - 1]? = some last := ⟨_, List.getElem?_eq_getElem (by omega)⟩
        have hend : (ts.drop cursor).getLastD head = last := by
          rw [List.getLastD_eq_getLast?, List.getLast?_drop, if_neg (by omega), List.getLast?_eq_getElem?, hlast]
          rfl
        rw [Looking.result_bind, look, (tokenAt_eq_ok_iff ts _ last).2 hlast, spanToEnd, hend]
        rfl
      · rename_i hlen
        have hle := Instr.le_callLen s.arity
        rw [bytesAt_drop 3 (by omega), bytesAt_drop (3 + s.arity) (by omega), Looking.result_bind, result_lookBytes]
        cases hargs : bytesAt ts (cursor + 3) s.arity with
        | error stop => rfl
        | ok args =>
          have harity : args.length = s.arity := ((bytesAt_eq_ok_iff ts _ _ args).1 hargs).1
          show Looking.result (lookBytes ts (cursor + (3 + s.arity)) _ >>= _) = _
          rw [Looking.result_bind, result_lookBytes, ← harity]
          cases bytesAt ts (cursor + (3 + args.length)) (Instr.callLen args.length - (3 + args.length)) <;> rfl

theorem advance_bind {α : Type} (x : Reading α) (f : α → Reading SymbolicInstr) :
    advance cursor (x >>= f) = x >>= fun a => advance cursor (f a) := by cases x <;> rfl

theorem advance_eq_ok_iff {r : Reading SymbolicInstr} {i : SymbolicInstr} {next : Nat} :
    advance cursor r = .ok (i, next) ↔ r = .ok i ∧ next = cursor + i.encodedLen := by
  cases r with
  | error stop => exact ⟨fun h => (by cases h), fun h => (by cases h.1)⟩
  | ok j => exact ⟨fun h => (by cases h; exact ⟨rfl, rfl⟩), fun ⟨h, hnext⟩ => (by cases h; rw [hnext]; rfl)⟩

theorem advance_eq_error_iff {r : Reading SymbolicInstr} {stop : Stop} :
    advance cursor r = .error stop ↔ r = .error stop := by
  cases r with
  | error stop' => exact ⟨fun h => (by cases h; rfl), fun h => (by cases h; rfl)⟩
  | ok j => exact ⟨fun h => (by cases h), fun h => (by cases h)⟩

/-- **At a cursor the same is read as from the elements behind it.** -/
theorem result_lookWord (h : cursor + wordSize ≤ ts.length) :
    (lookWord ts cursor).result = advance cursor (word (ts.drop cursor)) := by
  have hlt : cursor + 4 ≤ ts.length := h
  have hbyte : ∀ j < 4, byteAt (ts.drop cursor) j = byteAt ts (cursor + j) := fun j hj => by
    rw [byteAt, byteAt, tokenAt_drop j (by omega)]
  rw [lookWord, word, tokenAt_drop 0 (by omega), Looking.result_bind, advance_bind]
  refine congrArg _ (funext fun head => ?_)
  unfold lookBehind
  cases head.lexeme with
  | integer text => rfl
  | name mnemonic =>
    dsimp only
    cases Opcode.ofMnemonic? mnemonic with
    | none => rfl
    | some o =>
      dsimp only
      by_cases ho : o = .call
      · rw [if_pos ho, ho]
        exact result_lookCall h head
      · rw [if_neg ho, lookOperands, hbyte 1 (by decide), hbyte 2 (by decide), hbyte 3 (by decide)]
        simp only [Looking.result_bind, result_lookByte, advance_bind]
        rfl

/-! ## What is looked at -/

section Looks

variable {n index : Nat}

theorem within_look (h : index < n) : (look ts index).Within n := fun _ hi => by rwa [List.mem_singleton.1 hi]

theorem within_lookName (h : index < n) (role : Role) : (lookName ts index role).Within n :=
  (within_look h).bind fun _ _ => Looking.within_still n _

theorem within_lookByte (h : index < n) : (lookByte ts index).Within n :=
  (within_look h).bind fun _ _ => Looking.within_still n _

theorem within_lookBytes {count : Nat} (h : index + count ≤ n) : (lookBytes ts index count).Within n := by
  induction count generalizing index with
  | zero => exact Looking.within_still n _
  | succ count ih =>
    refine (within_lookByte (by omega)).bind fun _ _ => ?_
    exact (ih (by omega)).bind fun _ _ => Looking.within_still n _

theorem within_lookSignature (h : index < n) : (lookSignature ts index).Within n := by
  refine (within_look h).bind fun _ _ => (within_lookName h _).bind fun text _ => ?_
  cases Signature.parse text <;> exact Looking.within_still n _

end Looks

/-- **A call is looked at within the elements** as soon as a word is left: all its bytes are there before one of them is
looked at. -/
theorem within_lookCall (h : cursor + wordSize ≤ ts.length) (head : Token) :
    (lookCall ts cursor head).Within ts.length := by
  have h : cursor + 4 ≤ ts.length := h
  refine (within_lookName (by omega) _).bind fun _ _ => (within_lookSignature (by omega)).bind fun s _ => ?_
  have hle := Instr.le_callLen s.arity
  dsimp only
  split
  · exact (within_look (by omega)).bind fun _ _ => Looking.within_still _ _
  · exact (within_lookBytes (by omega)).bind fun _ _ =>
      (within_lookBytes (by omega)).bind fun _ _ => Looking.within_still _ _

theorem within_lookOperands (h : cursor + wordSize ≤ ts.length) (opcode : Opcode) :
    (lookOperands ts cursor opcode).Within ts.length := by
  have h : cursor + 4 ≤ ts.length := h
  refine (within_lookByte (by omega)).bind fun _ _ => ?_
  refine (within_lookByte (by omega)).bind fun _ _ => ?_
  exact (within_lookByte (by omega)).bind fun _ _ => Looking.within_still _ _

/-- **A word is looked at within the elements.** -/
theorem within_lookWord (h : cursor + wordSize ≤ ts.length) : (lookWord ts cursor).Within ts.length := by
  have hlt : cursor + 4 ≤ ts.length := h
  refine (within_look (by omega)).bind fun head _ => ?_
  obtain ⟨stop, hstop⟩ | hcall | ⟨opcode, hop⟩ := lookBehind_cases ts cursor head
  · rw [hstop]
    exact Looking.within_still _ _
  · rw [hcall]
    exact within_lookCall h head
  · rw [hop]
    exact within_lookOperands h opcode

theorem looks_look_bind {α : Type} (index : Nat) (f : Token → Reading α) :
    (look ts index >>= fun t => still (f t)).looks = [index] := by
  cases h : tokenAt ts index with
  | error stop => rw [Looking.bind_of_error (x := look ts index) h]; rfl
  | ok t => rw [Looking.bind_of_ok (x := look ts index) h]; rfl

theorem looks_lookBytes {index count : Nat} {bs : List UInt8} (h : (lookBytes ts index count).result = .ok bs) :
    (lookBytes ts index count).looks = List.range' index count := by
  induction count generalizing index bs with
  | zero => rfl
  | succ count ih =>
    obtain ⟨b, -, h, hlooks⟩ := Looking.of_bind_eq_ok h
    obtain ⟨bs', hbs, -, hmore⟩ := Looking.of_bind_eq_ok h
    rw [lookBytes, hlooks, hmore, ih hbs, lookByte, looks_look_bind, List.range'_succ]
    exact congrArg _ (List.append_nil _)

theorem looks_lookSignature {index : Nat} {s : Signature} (h : (lookSignature ts index).result = .ok s) :
    (lookSignature ts index).looks = [index, index] := by
  obtain ⟨t, -, h, hlooks⟩ := Looking.of_bind_eq_ok h
  obtain ⟨text, -, h, hmore⟩ := Looking.of_bind_eq_ok h
  have hstill : (match Signature.parse text with
      | .ok s => pure s
      | .error _ => still (fail (.invalidSignature text) t.span) : Looking Signature).looks = [] := by
    cases Signature.parse text <;> rfl
  rw [lookSignature, hlooks, hmore, hstill, lookName, looks_look_bind]
  rfl

theorem looks_lookCall {head : Token} {i : SymbolicInstr} {next : Nat}
    (h : (lookCall ts cursor head).result = .ok (i, next)) :
    next = cursor + i.encodedLen ∧ 3 ≤ i.encodedLen ∧ (lookCall ts cursor head).looks =
      [cursor + 1, cursor + 2, cursor + 2] ++ List.range' (cursor + 3) (i.encodedLen - 3) := by
  obtain ⟨target, -, h, hlooks⟩ := Looking.of_bind_eq_ok h
  obtain ⟨s, hs, h, hsignature⟩ := Looking.of_bind_eq_ok h
  rw [lookCall, hlooks, hsignature, lookName, looks_look_bind, looks_lookSignature hs]
  dsimp only at h ⊢
  split at h
  · obtain ⟨last, -, h, -⟩ := Looking.of_bind_eq_ok h
    cases h
  · rename_i hlen
    rw [if_neg hlen]
    obtain ⟨args, hargs, h, hmore⟩ := Looking.of_bind_eq_ok h
    obtain ⟨pads, hpads, h, hrest⟩ := Looking.of_bind_eq_ok h
    cases h
    have harity : args.length = s.arity := by
      rw [result_lookBytes] at hargs
      exact ((bytesAt_eq_ok_iff ts _ _ args).1 hargs).1
    have hle := Instr.le_callLen s.arity
    rw [hmore, hrest, looks_lookBytes hargs, looks_lookBytes hpads, Instr.encodedLen, harity]
    have hspan : List.range' (cursor + 3) s.arity ++
        List.range' (cursor + (3 + s.arity)) (Instr.callLen s.arity - (3 + s.arity)) =
          List.range' (cursor + 3) (Instr.callLen s.arity - 3) := by
      rw [← Nat.add_assoc, List.range'_append_1]
      congr 1
      omega
    refine ⟨rfl, by omega, ?_⟩
    rw [← hspan]
    simp [pure, still]

theorem looks_lookOperands {opcode : Opcode} {i : SymbolicInstr} {next : Nat}
    (h : (lookOperands ts cursor opcode).result = .ok (i, next)) :
    next = cursor + i.encodedLen ∧ i.encodedLen = 4 ∧
      (lookOperands ts cursor opcode).looks = [cursor + 1, cursor + 2, cursor + 3] := by
  obtain ⟨x, -, h, hx⟩ := Looking.of_bind_eq_ok h
  obtain ⟨y, -, h, hy⟩ := Looking.of_bind_eq_ok h
  obtain ⟨z, -, h, hz⟩ := Looking.of_bind_eq_ok h
  cases h
  rw [lookOperands, hx, hy, hz]
  simp only [lookByte, looks_look_bind]
  exact ⟨rfl, rfl, rfl⟩

/-- **A word that is read is looked at whole**, and reading goes on behind it. -/
theorem lookWord_eq_ok {i : SymbolicInstr} {next : Nat} (h : (lookWord ts cursor).result = .ok (i, next)) :
    next = cursor + i.encodedLen ∧ ∀ index, index ∈ (lookWord ts cursor).looks ↔ cursor ≤ index ∧ index < next := by
  obtain ⟨head, -, h, hlooks⟩ := Looking.of_bind_eq_ok h
  rw [lookWord, hlooks, look]
  obtain ⟨stop, hstop⟩ | hcall | ⟨opcode, hop⟩ := lookBehind_cases ts cursor head
  · rw [hstop] at h
    cases h
  · rw [hcall] at h ⊢
    obtain ⟨rfl, hlen, hlooks⟩ := looks_lookCall h
    rw [hlooks]
    refine ⟨rfl, fun index => ?_⟩
    simp [List.mem_range'_1]
    omega
  · rw [hop] at h ⊢
    obtain ⟨rfl, hlen, hlooks⟩ := looks_lookOperands h
    rw [hlooks]
    refine ⟨rfl, fun index => ?_⟩
    simp
    omega

/-! ## The loop -/

/-- What a loop over words does: the cursors at its turns, the indices it looks at, and what it reads. -/
structure Walk where
  turns : List Nat
  looks : List Nat
  result : Reading (List SymbolicInstr)
deriving DecidableEq, Repr

/-- **The instructions from a cursor on.**  The last turn finds the cursor at the end, or an error. -/
def lookWords (ts : List Token) (cursor : Nat) : Walk :=
  if cursor < ts.length then
    match _h : (lookWord ts cursor).result with
    | .error stop => ⟨[cursor], (lookWord ts cursor).looks, .error stop⟩
    | .ok (i, next) =>
      ⟨cursor :: (lookWords ts next).turns, (lookWord ts cursor).looks ++ (lookWords ts next).looks,
        (lookWords ts next).result.map (i :: ·)⟩
  else ⟨[cursor], [], .ok []⟩
termination_by ts.length - cursor
decreasing_by
  all_goals
    obtain ⟨hnext, -⟩ := lookWord_eq_ok _h
    have hpos := i.encodedLen_pos
    omega

/-- The instructions of all elements; if the first one is no function header, its element is looked at once more. -/
def lookAll (ts : List Token) : Walk :=
  let walk := lookWords ts 0
  match walk.result with
  | .ok (i :: _) =>
    if i.opcode = .prologue then walk
    else
      { walk with
        looks := walk.looks ++ (look ts 0).looks
        result := (look ts 0).result >>= fun t => fail (.missingPrologue i.opcode) t.span }
  | _ => walk

/-- **What holds of a walk from a cursor**: it reads what `words` reads, looks at no element that is not there, and
each of its turns is at a whole number of words, behind the one before and not beyond the end. -/
structure Walked (ts : List Token) (cursor : Nat) (walk : Walk) : Prop where
  result_eq : walk.result = words (ts.drop cursor)
  looks_lt : ∀ index ∈ walk.looks, index < ts.length
  turns_le : ∀ turn ∈ walk.turns, wordSize ∣ turn ∧ cursor ≤ turn ∧ turn ≤ ts.length
  turns_lt : walk.turns.Pairwise (· < ·)
  turns_length : wordSize * walk.turns.length ≤ ts.length - cursor + wordSize

theorem words_of_pos {us : List Token} (h : 0 < us.length) :
    words us = word us >>= fun i => (words (us.drop i.encodedLen)).map (i :: ·) := by
  obtain ⟨t, rest, rfl⟩ := List.exists_cons_of_length_pos h
  rw [words]
  cases word (t :: rest) with
  | error stop => rfl
  | ok i =>
    dsimp only
    show _ = (words ((t :: rest).drop i.encodedLen)).map (i :: ·)
    cases words ((t :: rest).drop i.encodedLen) <;> rfl

/-- **What holds of a turn**: it reads what `word` reads, looks at no element that is not there, and goes on a positive
number of words further, not beyond the end; on the way it has looked at each element. -/
structure Stepped (ts : List Token) (cursor : Nat) : Prop where
  result_eq : (lookWord ts cursor).result = advance cursor (word (ts.drop cursor))
  within : (lookWord ts cursor).Within ts.length
  advances : ∀ i next, (lookWord ts cursor).result = .ok (i, next) →
    next = cursor + i.encodedLen ∧ cursor < next ∧ wordSize ∣ next - cursor ∧ next ≤ ts.length
  looks_iff : ∀ i next, (lookWord ts cursor).result = .ok (i, next) →
    ∀ index, index ∈ (lookWord ts cursor).looks ↔ cursor ≤ index ∧ index < next

/-- **One turn** of the loop at a whole number of words. -/
theorem stepped (hlen : wordSize ∣ ts.length) (hc : wordSize ∣ cursor) (hlt : cursor < ts.length) :
    Stepped ts cursor := by
  have hword : cursor + wordSize ≤ ts.length := by
    have hle := Nat.le_of_dvd (by omega) (Nat.dvd_sub hlen hc)
    omega
  refine ⟨result_lookWord hword, within_lookWord hword, fun i next h => ?_, fun i next h => (lookWord_eq_ok h).2⟩
  obtain ⟨rfl, hlooks⟩ := lookWord_eq_ok h
  have hpos := i.encodedLen_pos
  -- the last element of the instruction has been looked at
  have hlast := within_lookWord hword _ ((hlooks (cursor + i.encodedLen - 1)).2 (by omega))
  refine ⟨rfl, by omega, ?_, by omega⟩
  rw [Nat.add_sub_cancel_left]
  exact i.dvd_encodedLen

/-- **The loop**: turn by turn from a whole number of words. -/
theorem walked_lookWords (hlen : wordSize ∣ ts.length) (hc : wordSize ∣ cursor) (hle : cursor ≤ ts.length) :
    Walked ts cursor (lookWords ts cursor) := by
  fun_induction lookWords ts cursor with
  | case1 cursor hlt stop hresult =>
    have hstep := stepped hlen hc hlt
    have hword := advance_eq_error_iff.1 (hstep.result_eq.symm.trans hresult)
    have hpos : 0 < (ts.drop cursor).length := by rw [List.length_drop]; omega
    exact
      { result_eq := by
          rw [words_of_pos hpos, hword]
          rfl
        looks_lt := hstep.within
        turns_le := List.forall_mem_singleton.2 ⟨hc, Nat.le_refl _, hle⟩
        turns_lt := List.pairwise_singleton _ _
        turns_length := by simp }
  | case2 cursor hlt i next hresult ih =>
    have hstep := stepped hlen hc hlt
    obtain ⟨hword, rfl⟩ := advance_eq_ok_iff.1 (hstep.result_eq.symm.trans hresult)
    obtain ⟨-, hgt, hdvd, hnextle⟩ := hstep.advances i _ hresult
    have hpos : 0 < (ts.drop cursor).length := by rw [List.length_drop]; omega
    have hcnext : wordSize ∣ cursor + i.encodedLen := Nat.dvd_add hc i.dvd_encodedLen
    have ih := ih hcnext hnextle
    have hlonger := Nat.le_of_dvd i.encodedLen_pos i.dvd_encodedLen
    exact
      { result_eq := by
          rw [words_of_pos hpos, hword, ih.result_eq, ← List.drop_drop]
          rfl
        looks_lt := List.forall_mem_append.2 ⟨hstep.within, ih.looks_lt⟩
        turns_le := List.forall_mem_cons.2 ⟨⟨hc, Nat.le_refl _, hle⟩, fun turn hturn =>
          ⟨(ih.turns_le turn hturn).1, Nat.le_trans (Nat.le_of_lt hgt) (ih.turns_le turn hturn).2.1,
            (ih.turns_le turn hturn).2.2⟩⟩
        turns_lt := List.pairwise_cons.2 ⟨fun turn hturn => Nat.lt_of_lt_of_le hgt (ih.turns_le turn hturn).2.1,
          ih.turns_lt⟩
        turns_length := by
          have hlength := ih.turns_length
          rw [List.length_cons, Nat.mul_add]
          omega }
  | case3 cursor hend =>
    have hnil : ts.drop cursor = [] := List.drop_eq_nil_of_le (by omega)
    exact
      { result_eq := by rw [hnil, words]
        looks_lt := fun _ h => by cases h
        turns_le := List.forall_mem_singleton.2 ⟨hc, Nat.le_refl _, hle⟩
        turns_lt := List.pairwise_singleton _ _
        turns_length := by simp }

/-- The first element is looked at once more exactly if there is one and no function starts there. -/
theorem lookAll_cases (hresult : (lookWords ts 0).result = words ts) :
    (lookAll ts = lookWords ts 0 ∧ ∀ is, words ts = .ok is → checkPrologue ts is = .ok is) ∨
      ∃ first i is, ts.head? = some first ∧ words ts = .ok (i :: is) ∧ i.opcode ≠ .prologue ∧
        lookAll ts = ⟨(lookWords ts 0).turns, (lookWords ts 0).looks ++ [0],
          .error (.error ⟨.missingPrologue i.opcode, first.span⟩)⟩ := by
  cases hw : words ts with
  | error stop =>
    rw [lookAll, hresult, hw]
    exact .inl ⟨rfl, fun _ h => by cases h⟩
  | ok is =>
    cases is with
    | nil =>
      rw [lookAll, hresult, hw]
      exact .inl ⟨rfl, fun _ h => by cases h; cases ts <;> rfl⟩
    | cons i is =>
      obtain ⟨first, rest, rfl⟩ : ∃ first rest, ts = first :: rest := by
        cases ts with
        | nil => rw [words] at hw; cases hw
        | cons first rest => exact ⟨first, rest, rfl⟩
      by_cases hi : i.opcode = .prologue
      · rw [lookAll, hresult, hw]
        refine .inl ⟨if_pos hi, fun _ h => ?_⟩
        cases h
        exact if_pos hi
      · refine .inr ⟨first, i, is, rfl, rfl, hi, ?_⟩
        rw [lookAll, hresult, hw]
        exact if_neg hi

theorem parse_of_tokens {text : String} (h : tokens text = .ok ts) (hlen : ts.length % wordSize = 0) :
    parse text = (words ts).mapError (Stop.toError text ts.length) >>= checkPrologue ts := by
  unfold parse
  rw [h]
  show (if ts.length % wordSize ≠ 0 then _ else _) = _
  rw [if_neg (not_not_intro hlen)]

/-- **A listing of whole words is read within its elements.**  Looking at them one by one reads what `parse` reads, and
stops for no missing element; every index that is looked at has an element, also that of the element which starts the
listing.  The loop has all its turns at whole numbers of words, further and further and not beyond the end, so it comes
to an end; and a turn, from wherever it starts, goes over the elements of its instruction and looks at each of them. -/
theorem parse_looks_within {text : String} (h : tokens text = .ok ts) (hlen : ts.length % wordSize = 0) :
    parse text = (lookAll ts).result.mapError (Stop.toError text ts.length) ∧
    (∀ stop, (lookAll ts).result = .error stop → ∃ e, stop = .error e) ∧
    (∀ index ∈ (lookAll ts).looks, index < ts.length) ∧
    (lookAll ts).turns = (lookWords ts 0).turns ∧ Walked ts 0 (lookWords ts 0) ∧
    ∀ cursor, wordSize ∣ cursor → cursor < ts.length → Stepped ts cursor := by
  have hdvd : wordSize ∣ ts.length := Nat.dvd_of_mod_eq_zero hlen
  have hwalked := walked_lookWords hdvd (Nat.dvd_zero _) (Nat.zero_le _)
  rw [parse_of_tokens h hlen]
  rcases lookAll_cases hwalked.result_eq with ⟨hall, hcheck⟩ | ⟨first, i, is, hfirst, hwords, hi, hall⟩
  · rw [hall, hwalked.result_eq, List.drop_zero]
    refine ⟨?_, fun stop hstop => ?_, hwalked.looks_lt, rfl, hwalked, fun _ => stepped hdvd⟩
    · cases hw : words ts with
      | error stop => rfl
      | ok is => exact hcheck is hw
    · obtain ⟨e, he, -⟩ := (words_eq_error_iff hdvd stop).1 hstop
      exact ⟨e, he⟩
  · rw [hall, hwords]
    have hpos : 0 < ts.length := by
      cases ts with
      | nil => cases hfirst
      | cons => exact Nat.succ_pos _
    refine ⟨?_, fun stop hstop => ?_, ?_, rfl, hwalked, fun _ => stepped hdvd⟩
    · exact (checkPrologue_eq_error_iff ((words_eq_ok_iff ts _).1 hwords) _).2 ⟨first, i, is, hfirst, rfl, hi, rfl⟩
    · cases hstop
      exact ⟨_, rfl⟩
    · exact List.forall_mem_append.2 ⟨hwalked.looks_lt, List.forall_mem_singleton.2 hpos⟩

/-- A call whose last element of padding is the last one of the listing. -/
theorem parse_looks_within_last_call :
    ∃ text ts, text = "[\"FUNC\", 3, 0, 0, \"CALL\", \"_g\", \"vid\", 253, 2, 7, 0, 255]" ∧ tokens text = .ok ts ∧
      ts.length = 12 ∧ parse text = (lookAll ts).result.mapError (Stop.toError text 12) ∧
      (∀ index ∈ (lookAll ts).looks, index < 12) ∧ Walked ts 0 (lookWords ts 0) ∧ Stepped ts 4 := by
  obtain ⟨text, htext⟩ :
    ∃ text, text = "[\"FUNC\", 3, 0, 0, \"CALL\", \"_g\", \"vid\", 253, 2, 7, 0, 255]" := ⟨_, rfl⟩
  have hcount : (tokens text).map List.length = .ok 12 := by
    rw [htext]
    decide +kernel
  obtain ⟨ts, hts, hlen⟩ := exists_ok_of_map_eq_ok (P := fun ts => ts.length = 12) hcount fun _ _ h => h
  obtain ⟨hparse, -, hlooks, -, hwalked, hstepped⟩ := parse_looks_within hts (by rw [hlen]; decide)
  rw [hlen] at hparse hlooks
  exact ⟨text, ts, htext, hts, hlen, hparse, hlooks, hwalked, hstepped 4 (by decide) (by rw [hlen]; decide)⟩

end Wordcode.Listing
