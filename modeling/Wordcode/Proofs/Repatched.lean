import Wordcode.Proofs.Host.Filled
import Wordcode.Proofs.Host.Scanning
import Wordcode.Proofs.Transform
/-!
# Proofs.Repatched — patching a patched module changes nothing

An address in parentheses is no placeholder, since no digit is the first letter of the mark, and as it opens with a
parenthesis itself, nothing in front of it reaches into it.  So no placeholder comes to be where one is replaced
(`occurs_replaced_iff`), and the placeholders of a filled line are those that had no address, in their order
(`pieces_fill`, `map_fst_holesOf_fillLine`).  What is left to patch again is what was warned of before, and it is warned
of again under the same number of line (`patch_patch`).
-/
namespace Wordcode

namespace Placeholder

variable (address? : String → Option UInt32)

/-! ## A filled line -/

/-- What was no placeholder does not become one by what is filled behind its first character. -/
theorem read?_flatMap_fill_eq_none {c : Char} {cs : List Char} (h : read? (c :: cs) = none) :
    read? (c :: (pieces cs).flatMap (Piece.fill address?)) = none := by
  rw [Option.eq_none_iff_forall_ne_some]
  rintro ⟨name, behind⟩ hread
  obtain ⟨heq, hn⟩ := read?_eq_some_iff.1 hread
  -- No parenthesis opens in the rest of the placeholder, so it stood in the front of the line, which filling keeps.
  obtain ⟨rfl, hrest⟩ := List.cons.inj (heq.trans (show _ = '(' :: ((chars name).tail ++ behind) from rfl))
  have hlead : ∀ d ∈ (chars name).tail, (fun d => d != '(') d = true := fun d hd =>
    bne_iff_ne.2 fun heq => paren_not_mem_tail_chars hn (heq ▸ hd)
  have hfront := takeWhile_fillLine address? (String.ofList cs)
  rw [toList_fillLine, String.toList_ofList, hrest] at hfront
  have hkept := Text.after?_takeWhile hlead cs
  rw [← hfront, Text.after?_takeWhile hlead, Text.after?_eq_some_iff.2 rfl] at hkept
  obtain ⟨rest, hcs, -⟩ := Option.map_eq_some_iff.1 hkept.symm
  rw [read?_eq_some_iff.2 ⟨by rw [Text.after?_eq_some_iff.1 hcs]; rfl, hn⟩] at h
  cases h

/-- An address is no placeholder, and none opens in it. -/
theorem pieces_addressChars_append (address : UInt32) (behind : List Char) :
    pieces (addressChars address ++ behind) = (addressChars address).map .char ++ pieces behind := by
  obtain ⟨c, run, hrun⟩ := List.exists_cons_of_ne_nil
    (List.append_ne_nil_of_right_ne_nil (toString address.toNat).toList (List.cons_ne_nil ')' []))
  have hdigit : ∀ d ∈ c :: run, d.isDigit = true ∨ d = ')' := fun d hd => by
    rw [← hrun] at hd
    exact (List.mem_append.1 hd).imp Text.isDigit_of_mem_toString List.mem_singleton.1
  have hclosed : '(' ∉ c :: run := fun h => by rcases hdigit _ h with h | h <;> cases h
  have hread : read? ('(' :: (c :: run ++ behind)) = none := by
    rw [Option.eq_none_iff_forall_ne_some]
    rintro ⟨name, rest⟩ hread
    -- The mark would start with a digit.
    have hmark : c = 'E' := (List.cons.inj (List.cons.inj (read?_eq_some_iff.1 hread).1).2).1
    rcases hdigit c List.mem_cons_self with h | h <;> rw [hmark] at h <;> cases h
  have hchars : addressChars address = '(' :: c :: run := by rw [addressChars, List.cons_append, hrun]
  rw [hchars]
  exact (pieces_cons_of_none hread).trans (congrArg _ (pieces_append_of_notMem hclosed behind))

/-- A part of a line once the line is filled: an address is characters like any others. -/
def Piece.settle : Piece → List Piece
  | char c => [char c]
  | hole name => ((address? name).map fun address => (addressChars address).map char).getD [hole name]

/-- **The parts of a filled line** are the parts of the line, with the characters of an address for each part that has
one. -/
theorem pieces_fill (cs : List Char) :
    pieces ((pieces cs).flatMap (Piece.fill address?)) = (pieces cs).flatMap (Piece.settle address?) := by
  fun_induction pieces cs with
  | case1 => rw [List.flatMap_nil, pieces, List.flatMap_nil]
  | case2 c cs name behind h ih =>
    have hn := (read?_eq_some_iff.1 h).2
    rw [List.flatMap_cons, List.flatMap_cons, Piece.fill, Piece.settle]
    cases address? name with
    | none => rw [← ih]; exact pieces_chars_append hn _
    | some address => rw [← ih]; exact pieces_addressChars_append address _
  | case3 c cs h ih =>
    rw [List.flatMap_cons, List.flatMap_cons, ← ih]
    exact pieces_cons_of_none (read?_flatMap_fill_eq_none address? h)

theorem flatMap_fill_settle (p : Piece) : (p.settle address?).flatMap (Piece.fill address?) = p.fill address? := by
  cases p with
  | char c => rfl
  | hole name =>
    rw [Piece.settle]
    cases ha : address? name with
    | none => exact List.append_nil _
    | some address =>
      rw [fill_hole_of_some ha]
      exact flatMap_fill_map_char address? (addressChars address)

theorem fillLine_fillLine (line : String) : fillLine address? (fillLine address? line) = fillLine address? line := by
  apply String.toList_inj.1
  rw [toList_fillLine, toList_fillLine, pieces_fill, List.flatMap_assoc]
  exact List.flatMap_congr fun p _ => flatMap_fill_settle address? p

theorem map_fst_holes_settle (pos pos' : Nat) (ps : List Piece) :
    (holes pos' (ps.flatMap (Piece.settle address?))).map Prod.fst =
      ((holes pos ps).filter fun hole => (address? hole.1).isNone).map Prod.fst := by
  induction ps generalizing pos pos' with
  | nil => rfl
  | cons p ps ih =>
    rw [List.flatMap_cons]
    cases p with
    | char c => exact ih _ _
    | hole name =>
      rw [Piece.settle, holes]
      cases ha : address? name with
      | none =>
        rw [List.filter_cons_of_pos (by simp [ha])]
        exact congrArg (name :: ·) (ih _ _)
      | some address =>
        rw [List.filter_cons_of_neg (by simp [ha])]
        exact (congrArg _ (holes_map_char_append _ _ _)).trans (ih _ _)

/-- **The placeholders of a filled line** are for the names of those that had no address. -/
theorem map_fst_holesOf_fillLine (line : String) :
    (holesOf (fillLine address? line)).map Prod.fst = (Trampoline.unresolved address? line).map Prod.fst := by
  rw [holesOf, toList_fillLine, pieces_fill]
  exact map_fst_holes_settle address? 0 0 (pieces line.toList)

/-! ## A replaced placeholder -/

theorem holes_add (k pos : Nat) (ps : List Piece) :
    holes (k + pos) ps = (holes pos ps).map fun hole => (hole.1, ⟨k + hole.2.start, k + hole.2.stop⟩) := by
  induction ps generalizing pos with
  | nil => rfl
  | cons p ps ih =>
    cases p with
    | char c => simp only [holes, Nat.add_assoc, ih]
    | hole name => simp only [holes, Nat.add_assoc, ih, List.map_cons]

theorem toList_replaced (before : String) (address : UInt32) :
    (before ++ "(" ++ toString address.toNat ++ ")").toList = before.toList ++ addressChars address := by
  simp [addressChars]

/-- The placeholders of a line with an address in it are those on both sides of the address. -/
theorem holesOf_replaced (before behind : String) (address : UInt32) :
    holesOf (before ++ "(" ++ toString address.toNat ++ ")" ++ behind) =
      holesOf before ++ (holesOf behind).map fun hole =>
        (hole.1, ⟨Text.byteLen (before ++ "(" ++ toString address.toNat ++ ")").toList + hole.2.start,
          Text.byteLen (before ++ "(" ++ toString address.toNat ++ ")").toList + hole.2.stop⟩) := by
  have hparen : pieces (before.toList ++ (addressChars address ++ behind.toList)) =
      pieces before.toList ++ ((addressChars address).map .char ++ pieces behind.toList) := by
    rw [← pieces_addressChars_append]
    exact pieces_append_paren before.toList ((addressChars address).tail ++ behind.toList)
  rw [holesOf, String.toList_append, toList_replaced, List.append_assoc, hparen, holes_append, flatMap_chars_pieces,
    holes_map_char_append, Nat.zero_add, ← Text.byteLen_append, holesOf, holesOf, ← holes_add, Nat.add_zero]

/-- **No placeholder comes to be where one is replaced**, and none around it goes: those of the new line are those of
the text in front of the address and those of the text behind it. -/
theorem occurs_replaced_iff {before behind name : String} {address : UInt32} {span : Span} :
    Occurs (before ++ "(" ++ toString address.toNat ++ ")" ++ behind) name span ↔
      Occurs before name span ∨ ∃ span', Occurs behind name span' ∧
        span = ⟨Text.byteLen (before ++ "(" ++ toString address.toNat ++ ")").toList + span'.start,
          Text.byteLen (before ++ "(" ++ toString address.toNat ++ ")").toList + span'.stop⟩ := by
  rw [← mem_holesOf_iff, holesOf_replaced, List.mem_append, mem_holesOf_iff, List.mem_map]
  refine or_congr_right ⟨?_, ?_⟩
  · rintro ⟨⟨other, span'⟩, hmem, heq⟩
    cases heq
    exact ⟨span', (mem_holesOf_iff _ _ _).1 hmem, rfl⟩
  · rintro ⟨span', hocc, rfl⟩
    exact ⟨(name, span'), (mem_holesOf_iff _ _ _).2 hocc, rfl⟩

end Placeholder

namespace Trampoline

variable (addr : String → Option UInt32)

theorem address?_eq_none_of_mem_holesOf_fillLine {line : String} {hole : String × Span}
    (h : hole ∈ Placeholder.holesOf (Placeholder.fillLine addr line)) : addr hole.1 = none := by
  have hname : hole.1 ∈ (unresolved addr line).map Prod.fst :=
    Placeholder.map_fst_holesOf_fillLine addr line ▸ List.mem_map_of_mem h
  obtain ⟨⟨name, span⟩, hmem, heq⟩ := List.mem_map.1 hname
  rw [← heq]
  exact ((Placeholder.mem_unresolved_iff addr).1 hmem).2

theorem resolved_fillLine (line : String) : resolved addr (Placeholder.fillLine addr line) = [] :=
  List.filter_eq_nil_iff.2 fun hole h => by simp [address?_eq_none_of_mem_holesOf_fillLine addr h]

theorem unresolved_fillLine (line : String) :
    unresolved addr (Placeholder.fillLine addr line) = Placeholder.holesOf (Placeholder.fillLine addr line) :=
  List.filter_eq_self.2 fun hole h => by simp [address?_eq_none_of_mem_holesOf_fillLine addr h]

/-- **The same warning again**: the same placeholder of the same function, under the same number of line; it stands in
the line as it was, and in the line as it is filled. -/
inductive Rewarned : Diagnostic → Diagnostic → Prop
  | intro {caller line target : String} {number : Nat} {span span' : Span} (h : Placeholder.Occurs line target span)
      (h' : Placeholder.Occurs (Placeholder.fillLine addr line) target span') :
      Rewarned (warning caller number line target span)
        (warning caller number (Placeholder.fillLine addr line) target span')

theorem forall₂_rewarned_lineWarnings (caller : String) (number : Nat) (line : String) :
    List.Forall₂ (Rewarned addr) (lineWarnings addr caller number line)
      (lineWarnings addr caller number (Placeholder.fillLine addr line)) := by
  have hnames := Placeholder.map_fst_holesOf_fillLine addr line
  rw [← unresolved_fillLine, eq_comm, ← List.forall₂_eq_eq_eq, List.forall₂_map_left_iff,
    List.forall₂_map_right_iff, List.forall₂_iff_zip] at hnames
  rw [lineWarnings, lineWarnings, List.forall₂_map_left_iff, List.forall₂_map_right_iff, List.forall₂_iff_zip]
  refine ⟨hnames.1, ?_⟩
  rintro ⟨target, span⟩ ⟨target', span'⟩ hzip
  obtain rfl : target = target' := hnames.2 hzip
  obtain ⟨hmem, hmem'⟩ := List.of_mem_zip hzip
  exact .intro ((Placeholder.mem_unresolved_iff addr).1 hmem).1 ((Placeholder.mem_unresolved_iff addr).1 hmem').1

/-- **The warnings of a filled body** are those of the body again. -/
theorem forall₂_rewarned_bodyWarnings (first : Nat) (f : FunctionBlock) :
    List.Forall₂ (Rewarned addr) (bodyWarnings addr first f)
      (bodyWarnings addr first { f with body := f.body.map (Placeholder.fillLine addr) }) := by
  rw [bodyWarnings, bodyWarnings, List.zipIdx_map, List.flatMap_map]
  refine forall₂_flatMap ?_
  rintro ⟨line, number⟩ -
  exact forall₂_rewarned_lineWarnings addr f.name number line

theorem fillItem_fillItem (item : HostItem) : fillItem addr (fillItem addr item) = fillItem addr item := by
  cases item with
  | text line => rfl
  | declaration line imports => rfl
  | function f =>
    have hbody : (f.body.map (Placeholder.fillLine addr)).map (Placeholder.fillLine addr) =
        f.body.map (Placeholder.fillLine addr) := by
      rw [List.map_map]
      exact List.map_congr_left fun line _ => Placeholder.fillLine_fillLine addr line
    simp only [fillItem, hbody]

/-- Filling leaves the lines in front of a body as many as they were. -/
theorem bodies_map_fillItem (line : Nat) (items : List HostItem) :
    bodies line (items.map (fillItem addr)) =
      (bodies line items).map fun (first, f) => (first, { f with body := f.body.map (Placeholder.fillLine addr) }) := by
  induction items generalizing line with
  | nil => rfl
  | cons item items ih =>
    cases item with
    | text line => exact ih _
    | declaration line imports => exact ih _
    | function f =>
      have hlines : (fillItem addr (.function f)).lines.length = (HostItem.function f).lines.length := by
        simp [fillItem, HostItem.lines, FunctionBlock.lines]
      rw [List.map_cons, bodies, hlines, ih]
      rfl

end Trampoline

namespace HostModule

/-- **Patching a patched module changes nothing**: no placeholder of it has an address, since none comes to be where one
is replaced, and those that were left are warned of again, one by one and under the same numbers of lines. -/
theorem patch_patch (m : HostModule) (p : Program) (codeStart : UInt32) :
    ((m.patch p codeStart).host.patch p codeStart).host = (m.patch p codeStart).host ∧
    ((m.patch p codeStart).host.patch p codeStart).patched = 0 ∧
    List.Forall₂ (Trampoline.Rewarned (Trampoline.address? p codeStart)) (m.patch p codeStart).diagnostics
      ((m.patch p codeStart).host.patch p codeStart).diagnostics ∧
    ∀ {before behind name : String} {address : UInt32} {span : Span},
      Placeholder.Occurs (before ++ "(" ++ toString address.toNat ++ ")" ++ behind) name span ↔
        Placeholder.Occurs before name span ∨ ∃ span', Placeholder.Occurs behind name span' ∧
          span = ⟨Text.byteLen (before ++ "(" ++ toString address.toNat ++ ")").toList + span'.start,
            Text.byteLen (before ++ "(" ++ toString address.toNat ++ ")").toList + span'.stop⟩ := by
  refine ⟨?_, ?_, ?_, Placeholder.occurs_replaced_iff⟩
  · simp only [patch, List.map_map]
    exact congrArg HostModule.mk (List.map_congr_left fun item _ => Trampoline.fillItem_fillItem _ item)
  · rw [patch, functions_patch, List.flatMap_map, List.length_eq_zero_iff]
    refine List.flatMap_eq_nil_iff.2 fun f _ => ?_
    rw [List.flatMap_map]
    exact List.flatMap_eq_nil_iff.2 fun line _ => Trampoline.resolved_fillLine _ line
  · simp only [patch, Trampoline.bodies_map_fillItem, List.flatMap_map]
    refine forall₂_flatMap ?_
    rintro ⟨first, f⟩ -
    exact Trampoline.forall₂_rewarned_bodyWarnings _ first f

end HostModule
end Wordcode
