import Wordcode.Program.Disassembly
import Wordcode.Proofs.Assembly.Walk
import Wordcode.Proofs.Text
import Wordcode.Proofs.Words
/-!
# Proofs.Disassembly — labels say where branches go

A line of a disassembly is read by its words: the word behind the address is a label if a colon ends it (`labelOf?`),
and a branch ends with the label it goes to (`goalOf?`).  Both are numbers of targets, so they agree exactly where a
branch's target is the line's address, and labels ascend with addresses (`labels_sound`).  All targets are numbered,
those at which no instruction stands too: such a branch goes to a label that no line has (`goal_without_label`).
-/
namespace Wordcode.Disassembly

/-! ## Reading a line -/

/-- What stands in front of the character that ends a text. -/
def endedBy? (c : Char) (s : String) : Option String :=
  if s.toList.getLast? = some c then some (String.ofList s.toList.dropLast) else none

/-- **The label that a line has.** -/
def labelOf? (line : String) : Option String := (Text.words line)[1]?.bind (endedBy? ':')

/-- **The label that a line goes to.** -/
def goalOf? (line : String) : Option String :=
  match (Text.words line).reverse with
  | last :: "(to" :: _ => endedBy? ')' last
  | _ => none

theorem endedBy?_append (c : Char) (s : String) : endedBy? c (s ++ String.singleton c) = some s := by
  simp [endedBy?]

theorem words_mnemonic (o : Opcode) : Text.words o.mnemonic = [o.mnemonic] := by
  cases o <;> exact Text.words_of_word (by decide) (by decide)

theorem endedBy?_mnemonic (o : Opcode) : endedBy? ':' o.mnemonic = none := by cases o <;> decide

theorem labelName_injective {m n : Nat} (h : labelName m = labelName n) : m = n := by
  have hdigits : "L" ++ toString m = "L" ++ toString n := h
  exact Text.toString_nat_injective (String.append_right_inj "L" |>.1 hdigits)

theorem words_labelName (n : Nat) {behind : String} (h : ' ' ∉ behind.toList) :
    Text.words (labelName n ++ behind) = [labelName n ++ behind] := by
  have hname : labelName n = "L" ++ toString n := rfl
  refine Text.words_of_word ?_ ?_
  · rw [← String.toList_inj.ne, hname]
    simp [String.toList_append]
  · simp only [hname, String.toList_append, List.mem_append, not_or]
    refine ⟨⟨by decide, fun hspace => ?_⟩, h⟩
    cases Text.isDigit_of_mem_toString hspace

/-- **The words of a line**: its address, its label if it has one, the mnemonic, and those behind it. -/
theorem words_line (p : Program) (symbols : SymbolTable) (ls : List Int) (address : Nat) (i : Instruction) :
    Text.words (line p symbols ls address i) =
      toString address :: (Text.words (labelAt ls address) ++ i.opcode.mnemonic ::
        Text.words (i.showOperands ++ remark p symbols ls address i)) := by
  have hline : line p symbols ls address i =
      " " ++ (" " ++ Text.padLeft 6 (toString address)) ++ " " ++ Text.padLeft 4 (labelAt ls address) ++ " " ++
        (" " ++ Text.padRight 8 i.opcode.mnemonic) ++ " " ++ (i.showOperands ++ remark p symbols ls address i) := by
    rw [← String.toList_inj]
    simp [line, Instruction.text, String.toList_append]
  have haddress : Text.words (toString address) = [toString address] := by
    refine Text.words_of_word ?_ fun hspace => ?_
    · rw [← String.toList_inj.ne]
      simp
    · cases Text.isDigit_of_mem_toString hspace
  rw [hline, Text.words_append_space, Text.words_append_space, Text.words_append_space, Text.words_space_append,
    Text.words_space_append, Text.words_space_append, Text.words_padLeft, Text.words_padLeft, Text.words_padRight,
    haddress, words_mnemonic]
  simp

/-- **The label of a line** is the number of the line's address among the targets. -/
theorem labelOf?_line (p : Program) (symbols : SymbolTable) (ls : List Int) (address : Nat) (i : Instruction) :
    labelOf? (line p symbols ls address i) = (ls.idxOf? (address : Int)).map labelName := by
  rw [labelOf?, words_line, labelAt]
  cases ls.idxOf? (address : Int) with
  | none =>
    -- the second word is the mnemonic, and no mnemonic ends with a colon
    exact endedBy?_mnemonic i.opcode
  | some n =>
    have hlabel := words_labelName n (show ' ' ∉ ":".toList by decide)
    simp only [hlabel]
    exact endedBy?_append ':' (labelName n)

/-- **The goal of a branch** is the number of its target. -/
theorem goalOf?_line (p : Program) (symbols : SymbolTable) {ls : List Int} {address : Nat} {i : Instruction} {t : Int}
    {n : Nat} (ht : target? address i = some t) (hn : ls.idxOf? t = some n) :
    goalOf? (line p symbols ls address i) = some (labelName n) := by
  have hremark : i.showOperands ++ remark p symbols ls address i =
      i.showOperands ++ " " ++ ("(to" ++ " " ++ (labelName n ++ ")")) := by
    cases i with
    | call => cases ht
    | op =>
      have hto : destination ls t = " (to " ++ labelName n ++ ")" := by rw [destination, hn]; rfl
      rw [remark, ht, Option.map_some, Option.getD_some, hto, ← String.toList_inj]
      simp [String.toList_append]
  have hname := words_labelName n (show ' ' ∉ ")".toList by decide)
  have hto : Text.words "(to" = ["(to"] := Text.words_of_word (by decide) (by decide)
  have hreverse : (Text.words (line p symbols ls address i)).reverse =
      (labelName n ++ ")") :: "(to" :: (toString address :: (Text.words (labelAt ls address) ++
        i.opcode.mnemonic :: Text.words i.showOperands)).reverse := by
    rw [words_line, hremark, Text.words_append_space, Text.words_append_space, hto, hname]
    simp
  rw [goalOf?, hreverse]
  exact endedBy?_append ')' (labelName n)

/-! ## Numbering the targets -/

theorem mem_labels_iff {is : List Instruction} {t : Int} :
    t ∈ labels is ↔ ∃ x ∈ addressed 0 is, target? x.1 x.2 = some t := by
  rw [labels, List.mem_mergeSort, List.mem_eraseDups, List.mem_filterMap]

/-- **Targets are numbered by ascending address**, each once. -/
theorem pairwise_lt_labels (is : List Instruction) : (labels is).Pairwise (· < ·) := by
  have hsorted : (labels is).Pairwise fun s t => decide (s ≤ t) = true :=
    List.pairwise_mergeSort (by intro a b c; simpa using Int.le_trans) (by intro a b; simpa using Int.le_total a b) _
  have hnodup : (labels is).Nodup :=
    (List.mergeSort_perm _ _).nodup_iff.2 (SymbolTable.nodup_eraseDups _)
  refine (hsorted.and hnodup).imp fun {s t} h => ?_
  have hle : s ≤ t := by simpa using h.1
  have hne := h.2
  omega

theorem getElem?_of_idxOf? {ls : List Int} {t : Int} {n : Nat} (h : ls.idxOf? t = some n) : ls[n]? = some t := by
  obtain ⟨hlt, he, -⟩ := List.idxOf?_eq_some_iff.1 h
  rw [List.getElem?_eq_getElem hlt, he]

theorem exists_idxOf? {ls : List Int} {t : Int} (h : t ∈ ls) : ∃ n, ls.idxOf? t = some n :=
  Option.ne_none_iff_exists'.1 fun hnone => List.idxOf?_eq_none_iff.1 hnone h

theorem idxOf?_eq_iff {ls : List Int} {s t : Int} {n : Nat} (ht : ls.idxOf? t = some n) :
    ls.idxOf? s = some n ↔ s = t := by
  constructor
  · intro hs
    exact Option.some_inj.1 ((getElem?_of_idxOf? hs).symm.trans (getElem?_of_idxOf? ht))
  · rintro rfl
    exact ht

theorem lt_of_idxOf? {ls : List Int} (h : ls.Pairwise (· < ·)) {s t : Int} {m n : Nat} (hs : ls.idxOf? s = some m)
    (ht : ls.idxOf? t = some n) (hlt : s < t) : m < n := by
  obtain ⟨hm, rfl, -⟩ := List.idxOf?_eq_some_iff.1 hs
  obtain ⟨hn, rfl, -⟩ := List.idxOf?_eq_some_iff.1 ht
  by_contra hle
  rcases Nat.lt_or_eq_of_le (Nat.le_of_not_lt hle) with hnm | rfl
  · have := List.pairwise_iff_getElem.1 h n m hn hm hnm
    omega
  · omega

/-! ## The lines of a function -/

structure Row where
  address : Nat
  instruction : Instruction
  line : String

def Row.target? (r : Row) : Option Int := Disassembly.target? r.address r.instruction

/-- **The lines of a function**, below its heading. -/
def rows (p : Program) (symbols : SymbolTable) (f : AssembledFunction) : List Row :=
  (addressed 0 f.instructions).map fun (address, i) =>
    ⟨address, i, line p symbols (labels f.instructions) address i⟩

/-- **Labels and branches on lines agree.** -/
structure LabelsSound (rows : List Row) : Prop where
  /-- A line has a label exactly if a branch goes to its address. -/
  labelled : ∀ r ∈ rows, (∃ n, labelOf? r.line = some (labelName n)) ↔ ∃ b ∈ rows, b.target? = some (r.address : Int)
  /-- A line has no other label. -/
  numbered : ∀ r ∈ rows, ∀ label ∈ labelOf? r.line, ∃ n, label = labelName n
  /-- Down the lines, addresses and labels ascend. -/
  ascending : rows.Pairwise fun r r' => r.address < r'.address ∧
    ∀ m n, labelOf? r.line = some (labelName m) → labelOf? r'.line = some (labelName n) → m < n
  /-- A branch goes to a label. -/
  goal : ∀ b ∈ rows, b.target?.isSome → ∃ n, goalOf? b.line = some (labelName n)
  /-- The line with this label is the line at the branch's target, and no other one. -/
  goal_eq_label : ∀ b ∈ rows, ∀ t ∈ b.target?, ∀ r ∈ rows, goalOf? b.line = labelOf? r.line ↔ t = r.address
  /-- Branches go to one label exactly if they go to one target. -/
  goal_eq_goal : ∀ b ∈ rows, ∀ t ∈ b.target?, ∀ b' ∈ rows, ∀ t' ∈ b'.target?,
    goalOf? b.line = goalOf? b'.line ↔ t = t'

theorem mem_rows_iff {p : Program} {symbols : SymbolTable} {f : AssembledFunction} {r : Row} :
    r ∈ rows p symbols f ↔ (r.address, r.instruction) ∈ addressed 0 f.instructions ∧
      r.line = line p symbols (labels f.instructions) r.address r.instruction := by
  rw [rows, List.mem_map]
  constructor
  · rintro ⟨⟨address, i⟩, hmem, rfl⟩
    exact ⟨hmem, rfl⟩
  · rintro ⟨hmem, hline⟩
    refine ⟨_, hmem, ?_⟩
    show Row.mk r.address r.instruction _ = r
    rw [← hline]

theorem mem_labels_iff_row {p : Program} {symbols : SymbolTable} {f : AssembledFunction} {t : Int} :
    t ∈ labels f.instructions ↔ ∃ b ∈ rows p symbols f, b.target? = some t := by
  rw [mem_labels_iff]
  constructor
  · rintro ⟨x, hx, ht⟩
    exact ⟨⟨x.1, x.2, line p symbols (labels f.instructions) x.1 x.2⟩, mem_rows_iff.2 ⟨hx, rfl⟩, ht⟩
  · rintro ⟨b, hb, ht⟩
    exact ⟨_, (mem_rows_iff.1 hb).1, ht⟩

theorem labelOf?_row {p : Program} {symbols : SymbolTable} {f : AssembledFunction} {r : Row}
    (hr : r ∈ rows p symbols f) :
    labelOf? r.line = ((labels f.instructions).idxOf? (r.address : Int)).map labelName := by
  rw [(mem_rows_iff.1 hr).2, labelOf?_line]

theorem goalOf?_row {p : Program} {symbols : SymbolTable} {f : AssembledFunction} {b : Row}
    (hb : b ∈ rows p symbols f) {t : Int} (ht : b.target? = some t) :
    ∃ n, (labels f.instructions).idxOf? t = some n ∧ goalOf? b.line = some (labelName n) := by
  obtain ⟨n, hn⟩ := exists_idxOf? (mem_labels_iff_row.2 ⟨b, hb, ht⟩)
  refine ⟨n, hn, ?_⟩
  rw [(mem_rows_iff.1 hb).2, goalOf?_line p symbols ht hn]

theorem pairwise_lt_addressed : ∀ (is : List Instruction) (address : Nat),
    (addressed address is).Pairwise (fun x y => x.1 < y.1) ∧ ∀ x ∈ addressed address is, address ≤ x.1
  | [], _ => ⟨.nil, fun x hx => by cases hx⟩
  | i :: is, address => by
    obtain ⟨hlt, hle⟩ := pairwise_lt_addressed is (address + i.encodedLen)
    have hpos := i.encodedLen_pos
    rw [addressed, List.pairwise_cons]
    refine ⟨⟨fun x hx => ?_, hlt⟩, fun x hx => ?_⟩
    · have := hle x hx
      omega
    · rcases List.mem_cons.1 hx with rfl | hx
      · exact Nat.le_refl _
      · have := hle x hx
        omega

theorem labelsSound_rows (p : Program) (symbols : SymbolTable) (f : AssembledFunction) :
    LabelsSound (rows p symbols f) where
  labelled r hr := by
    rw [labelOf?_row hr, ← mem_labels_iff_row]
    constructor
    · rintro ⟨n, hn⟩
      obtain ⟨m, hm, -⟩ := Option.map_eq_some_iff.1 hn
      exact List.mem_of_getElem? (getElem?_of_idxOf? hm)
    · intro hmem
      obtain ⟨n, hn⟩ := exists_idxOf? hmem
      exact ⟨n, by rw [hn]; rfl⟩
  numbered r hr label hlabel := by
    rw [labelOf?_row hr, Option.mem_def, Option.map_eq_some_iff] at hlabel
    obtain ⟨n, -, rfl⟩ := hlabel
    exact ⟨n, rfl⟩
  ascending := by
    have haddressed := (pairwise_lt_addressed f.instructions 0).1
    have hrows : (rows p symbols f).Pairwise fun r r' => r.address < r'.address := List.pairwise_map.2 haddressed
    refine hrows.imp_of_mem fun {r r'} hr hr' hlt => ⟨hlt, fun m n hm hn => ?_⟩
    rw [labelOf?_row hr, Option.map_eq_some_iff] at hm
    rw [labelOf?_row hr', Option.map_eq_some_iff] at hn
    obtain ⟨m', hm, hname⟩ := hm
    obtain ⟨n', hn, hname'⟩ := hn
    rw [← labelName_injective hname, ← labelName_injective hname']
    exact lt_of_idxOf? (pairwise_lt_labels _) hm hn (Int.ofNat_lt.2 hlt)
  goal b hb ht := by
    obtain ⟨t, ht⟩ := Option.isSome_iff_exists.1 ht
    obtain ⟨n, -, hgoal⟩ := goalOf?_row hb ht
    exact ⟨n, hgoal⟩
  goal_eq_label b hb t ht r hr := by
    obtain ⟨n, hn, hgoal⟩ := goalOf?_row hb ht
    rw [hgoal, labelOf?_row hr, eq_comm, Option.map_eq_some_iff, @eq_comm _ t, ← idxOf?_eq_iff hn]
    constructor
    · rintro ⟨m, hm, hname⟩
      rwa [labelName_injective hname] at hm
    · intro hm
      exact ⟨n, hm, rfl⟩
  goal_eq_goal b hb t ht b' hb' t' ht' := by
    obtain ⟨n, hn, hgoal⟩ := goalOf?_row hb ht
    obtain ⟨n', hn', hgoal'⟩ := goalOf?_row hb' ht'
    rw [hgoal, hgoal', Option.some_inj, ← idxOf?_eq_iff hn', hn, Option.some_inj]
    constructor
    · exact labelName_injective
    · rintro rfl
      rfl

/-- **Labels and branches in a disassembly.**  A disassembly is, for each function, its heading and a line for each
instruction, at the sum of the lengths of those in front.  In every function, a line has a label exactly if a branch
goes to its address, labels ascend with addresses, and each branch names the label of its target: the label of the line
at that address if the function has such a line, and else a label that no line has. -/
theorem labels_sound (p : Program) (symbols : SymbolTable) :
    (p.disassemble symbols = "\n".intercalate (p.functions.map fun f =>
      Text.unlines (heading f :: (rows p symbols f).map Row.line))) ∧
      ∀ f : AssembledFunction, (rows p symbols f).map Row.instruction = f.instructions ∧
        (rows p symbols f).map Row.address =
          (List.range f.instructions.length).map (fun k => (encodeAll (f.instructions.take k)).length) ∧
        LabelsSound (rows p symbols f) := by
  refine ⟨?_, fun f => ⟨?_, ?_, labelsSound_rows p symbols f⟩⟩
  · rw [Program.disassemble]
    simp only [functionLines, rows, List.map_map]
    rfl
  · rw [rows, List.map_map]
    exact map_snd_addressed 0 f.instructions
  · rw [rows, List.map_map]
    have haddress := map_fst_addressed 0 f.instructions
    simp only [Nat.zero_add] at haddress
    exact haddress

/-- A header and a branch past the end of the function, to address 404. -/
def branchPastEnd : Program :=
  let is := [.op .prologue 1 0 0, .op .branchIfTrue 0 100 0]
  ⟨encodeAll is, [.place "_f" 0 is], Registry.empty⟩

/-- **A branch past the end of its function** is shown to go to a label, not to an address, and no line has it. -/
theorem goal_without_label :
    let symbols : SymbolTable := ⟨["_f"], by decide, by decide⟩
    branchPastEnd.disassemble symbols =
        "_f @0 (8 bytes, 1 locals):\n       0       FUNC     1\n       4       BRT      l0, 100 (to L0)\n" ∧
      ∀ f ∈ branchPastEnd.functions, (∃ b ∈ rows branchPastEnd symbols f, b.target? = some 404 ∧
          goalOf? b.line = some (labelName 0)) ∧
        ∀ r ∈ rows branchPastEnd symbols f, r.address ≠ 404 ∧ labelOf? r.line = none := by
  decide +kernel

end Wordcode.Disassembly
