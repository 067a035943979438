import Mathlib.Data.List.Forall2
import Wordcode.Proofs.Placeholder
import Wordcode.Trampoline
/-!
# Proofs.Host.Holes — every placeholder of a module, each one once

A line is scanned for its placeholders, and the scan finds each of them where it stands, from left to right
(`mem_holesOf_iff`, `pairwise_holesOf`).  So the placeholders of a module have one order, by function, line and place
(`mem_holes_iff`, `pairwise_holes`), and patching warns of those without an address in that order, one by one
(`forall₂_reports_patch`).
-/
namespace Wordcode

namespace Placeholder

/-- **A placeholder for a name stands in a line**, in these bytes of it. -/
def Occurs (line name : String) (span : Span) : Prop :=
  ∃ before behind, Split line before name behind ∧
    span = ⟨Text.byteLen before.toList, Text.byteLen before.toList + Text.byteLen (chars name)⟩

theorem holes_append (pos : Nat) (ps qs : List Piece) :
    holes pos (ps ++ qs) = holes pos ps ++ holes (pos + Text.byteLen (ps.flatMap Piece.chars)) qs := by
  induction ps generalizing pos with
  | nil => simp [holes]
  | cons p ps ih =>
    cases p with
    | char c => simp only [List.cons_append, holes, ih, List.flatMap_cons, Text.byteLen_append, Nat.add_assoc]
    | hole name => simp only [List.cons_append, holes, ih, List.flatMap_cons, Text.byteLen_append, Nat.add_assoc]

/-- A placeholder that the scan of a text finds is one: it has a text in front of it and one behind. -/
theorem exists_of_mem_holes {pos : Nat} {cs : List Char} {name : String} {span : Span}
    (h : (name, span) ∈ holes pos (pieces cs)) :
    ∃ before behind, cs = before ++ (chars name ++ behind) ∧ IsName name ∧
      span = ⟨pos + Text.byteLen before, pos + Text.byteLen before + Text.byteLen (chars name)⟩ := by
  fun_induction pieces cs generalizing pos with
  | case1 => cases h
  | case2 c cs found behind hread ih =>
    obtain ⟨hcs, hn⟩ := read?_eq_some_iff.1 hread
    rcases List.mem_cons.1 h with h | h
    · cases h
      exact ⟨[], behind, hcs, hn, rfl⟩
    · obtain ⟨before, rest, hbehind, hname, hspan⟩ := ih h
      refine ⟨chars found ++ before, rest, by rw [hcs, hbehind, List.append_assoc], hname, ?_⟩
      rw [hspan, Text.byteLen_append, Piece.chars, Nat.add_assoc pos]
  | case3 c cs hread ih =>
    obtain ⟨before, rest, hcs, hname, hspan⟩ := ih h
    refine ⟨c :: before, rest, by rw [hcs]; rfl, hname, ?_⟩
    rw [hspan, Piece.chars, Text.byteLen_cons, Text.byteLen_cons, Text.byteLen_nil, Nat.add_zero, Nat.add_assoc pos]

/-- **The scan of a line finds exactly the placeholders that stand in it.** -/
theorem mem_holesOf_iff (line name : String) (span : Span) : (name, span) ∈ holesOf line ↔ Occurs line name span := by
  constructor
  · intro h
    obtain ⟨before, behind, hline, hn, hspan⟩ := exists_of_mem_holes h
    refine ⟨String.ofList before, String.ofList behind, ⟨?_, hn⟩, by simpa using hspan⟩
    apply String.toList_inj.1
    rw [hline]
    simp [chars, opening]
  · rintro ⟨before, behind, hsplit, rfl⟩
    rw [holesOf, hsplit.toList_eq, pieces_append_chars hsplit.isName, holes_append, flatMap_chars_pieces]
    refine List.mem_append_right _ ?_
    simp [holes, Piece.chars]

theorem start_le_of_mem_holes {pos : Nat} {ps : List Piece} : ∀ hole ∈ holes pos ps, pos ≤ hole.2.start := by
  induction ps generalizing pos with
  | nil => intro hole h; cases h
  | cons p ps ih =>
    intro hole h
    have hle := Nat.le_add_right pos (Text.byteLen p.chars)
    cases p with
    | char c => exact Nat.le_trans hle (ih hole h)
    | hole name =>
      rcases List.mem_cons.1 h with rfl | h
      · exact Nat.le_refl _
      · exact Nat.le_trans hle (ih hole h)

/-- **From left to right**: the next placeholder starts no sooner than the last one stops. -/
theorem pairwise_holes_stop_le (pos : Nat) (ps : List Piece) :
    (holes pos ps).Pairwise fun a b => a.2.stop ≤ b.2.start := by
  induction ps generalizing pos with
  | nil => exact .nil
  | cons p ps ih =>
    cases p with
    | char c => exact ih _
    | hole name => exact List.pairwise_cons.2 ⟨fun hole h => start_le_of_mem_holes hole h, ih _⟩

end Placeholder

/-- A placeholder in the body of a function of a module: which function, which line of its body, and the name and the
bytes there. -/
structure Hole where
  function : Nat
  line : Nat
  name : String
  span : Span
deriving DecidableEq

namespace Hole

/-- The hole comes first: by function, then by line, then from left to right. -/
def Before (a b : Hole) : Prop :=
  a.function < b.function ∨ a.function = b.function ∧
    (a.line < b.line ∨ a.line = b.line ∧ a.span.stop ≤ b.span.start)

end Hole

theorem pairwise_zipIdx {α : Type} (l : List α) (k : Nat) : (l.zipIdx k).Pairwise fun a b => a.2 < b.2 := by
  have hrange : (List.range' k l.length).Pairwise (· < ·) := List.pairwise_lt_range'
  rw [← List.zipIdx_map_snd, List.pairwise_map] at hrange
  exact hrange

theorem forall₂_flatMap {α β γ : Type} {R : β → γ → Prop} {f : α → List β} {g : α → List γ} {l : List α}
    (h : ∀ a ∈ l, List.Forall₂ R (f a) (g a)) : List.Forall₂ R (l.flatMap f) (l.flatMap g) := by
  induction l with
  | nil => exact .nil
  | cons a l ih =>
    rw [List.flatMap_cons, List.flatMap_cons]
    exact List.rel_append (h a List.mem_cons_self) (ih fun b hb => h b (List.mem_cons_of_mem a hb))

namespace HostModule

/-- The placeholders of a line of a body. -/
def lineHoles (function line : Nat) (text : String) : List Hole :=
  (Placeholder.holesOf text).map fun (name, span) => ⟨function, line, name, span⟩

/-- The placeholders of a body. -/
def bodyHoles (function : Nat) (body : List String) : List Hole :=
  body.zipIdx.flatMap fun (text, line) => lineHoles function line text

/-- **The placeholders of a module**, function by function and line by line. -/
def holes (m : HostModule) : List Hole :=
  m.functions.zipIdx.flatMap fun (f, function) => bodyHoles function f.body

/-- **A placeholder stands in a body of a module.** -/
def HasHole (m : HostModule) (h : Hole) : Prop :=
  ∃ f text, m.functions[h.function]? = some f ∧ f.body[h.line]? = some text ∧ Placeholder.Occurs text h.name h.span

theorem mem_lineHoles_iff {function line : Nat} {text : String} {h : Hole} :
    h ∈ lineHoles function line text ↔
      h.function = function ∧ h.line = line ∧ Placeholder.Occurs text h.name h.span := by
  rw [lineHoles, List.mem_map]
  constructor
  · rintro ⟨⟨name, span⟩, hmem, rfl⟩
    exact ⟨rfl, rfl, (Placeholder.mem_holesOf_iff text name span).1 hmem⟩
  · rintro ⟨rfl, rfl, hocc⟩
    exact ⟨(h.name, h.span), (Placeholder.mem_holesOf_iff text h.name h.span).2 hocc, rfl⟩

theorem mem_bodyHoles_iff {function : Nat} {body : List String} {h : Hole} :
    h ∈ bodyHoles function body ↔
      h.function = function ∧ ∃ text, body[h.line]? = some text ∧ Placeholder.Occurs text h.name h.span := by
  simp only [bodyHoles, List.mem_flatMap, Prod.exists, List.mem_zipIdx_iff_getElem?, mem_lineHoles_iff]
  constructor
  · rintro ⟨text, line, hline, hfunction, rfl, hocc⟩
    exact ⟨hfunction, text, hline, hocc⟩
  · rintro ⟨hfunction, text, hline, hocc⟩
    exact ⟨text, h.line, hline, hfunction, rfl, hocc⟩

/-- **All placeholders of a module are among its holes**, and nothing else is. -/
theorem mem_holes_iff {m : HostModule} {h : Hole} : h ∈ m.holes ↔ m.HasHole h := by
  simp only [holes, List.mem_flatMap, Prod.exists, List.mem_zipIdx_iff_getElem?, mem_bodyHoles_iff]
  constructor
  · rintro ⟨f, function, hf, rfl, text, htext, hocc⟩
    exact ⟨f, text, hf, htext, hocc⟩
  · rintro ⟨f, text, hf, htext, hocc⟩
    exact ⟨f, h.function, hf, rfl, text, htext, hocc⟩

/-- **The holes of a module are in order**, so none of them is there twice. -/
theorem pairwise_holes (m : HostModule) : m.holes.Pairwise Hole.Before := by
  refine List.pairwise_flatMap.2 ⟨fun ⟨f, function⟩ _ => List.pairwise_flatMap.2 ⟨fun ⟨text, line⟩ _ => ?_, ?_⟩, ?_⟩
  · refine List.pairwise_map.2 ((Placeholder.pairwise_holes_stop_le 0 _).imp fun hstop => ?_)
    exact .inr ⟨rfl, .inr ⟨rfl, hstop⟩⟩
  · refine (pairwise_zipIdx f.body 0).imp fun hlt a ha b hb => ?_
    obtain ⟨hfa, hla, -⟩ := mem_lineHoles_iff.1 ha
    obtain ⟨hfb, hlb, -⟩ := mem_lineHoles_iff.1 hb
    exact .inr ⟨hfa.trans hfb.symm, .inl (by omega)⟩
  · refine (pairwise_zipIdx m.functions 0).imp fun hlt a ha b hb => ?_
    have hfa := (mem_bodyHoles_iff.1 ha).1
    have hfb := (mem_bodyHoles_iff.1 hb).1
    exact .inl (by omega)

/-! ## Warnings -/

/-- **A warning that a placeholder stays**: it names the placeholder and the function, counts the lines of the module up
to the placeholder's, and points at the placeholder in that line. -/
def Reports (m : HostModule) (h : Hole) (d : Diagnostic) : Prop :=
  ∃ first f text, (Trampoline.bodies 1 m.items)[h.function]? = some (first, f) ∧ f.body[h.line]? = some text ∧
    d = Trampoline.warning f.name (first + h.line) text h.name h.span

theorem map_snd_bodies (line : Nat) (items : List HostItem) :
    (Trampoline.bodies line items).map Prod.snd = items.filterMap HostItem.block? := by
  induction items generalizing line with
  | nil => rfl
  | cons item items ih =>
    cases item with
    | text => exact ih _
    | declaration => exact ih _
    | function f => exact congrArg (f :: ·) (ih _)

/-- The lines of a body, numbered from its first one. -/
theorem zipIdx_eq_map_zipIdx {α : Type} (l : List α) (k : Nat) :
    l.zipIdx k = l.zipIdx.map fun (a, i) => (a, k + i) := by
  rw [List.zipIdx_eq_map_add]

/-- **Patching warns of the placeholders without an address**, of each of them once and in order. -/
theorem forall₂_reports_patch (m : HostModule) (p : Program) (codeStart : UInt32) :
    List.Forall₂ m.Reports
      (m.holes.filter fun h => (Trampoline.address? p codeStart h.name).isNone) (m.patch p codeStart).diagnostics := by
  have hholes : m.holes = (Trampoline.bodies 1 m.items).zipIdx.flatMap fun (b, function) =>
      bodyHoles function b.2.body := by
    rw [holes, functions, ← map_snd_bodies 1, List.zipIdx_map, List.flatMap_map]
    rfl
  have hwarnings : (m.patch p codeStart).diagnostics = (Trampoline.bodies 1 m.items).zipIdx.flatMap fun (b, _) =>
      Trampoline.bodyWarnings (Trampoline.address? p codeStart) b.1 b.2 := by
    conv => lhs; rw [patch, ← List.zipIdx_map_fst 0 (Trampoline.bodies 1 m.items), List.flatMap_map]
  rw [hholes, hwarnings, List.filter_flatMap]
  refine forall₂_flatMap fun ⟨⟨first, f⟩, function⟩ hb => ?_
  have hbody := List.mem_zipIdx_iff_getElem?.1 hb
  simp only [bodyHoles, Trampoline.bodyWarnings]
  rw [zipIdx_eq_map_zipIdx f.body first, List.flatMap_map, List.filter_flatMap]
  refine forall₂_flatMap fun ⟨text, line⟩ hl => ?_
  have hline := List.mem_zipIdx_iff_getElem?.1 hl
  simp only [lineHoles, List.filter_map, Trampoline.lineWarnings, Trampoline.unresolved]
  rw [List.forall₂_map_left_iff, List.forall₂_map_right_iff]
  exact List.forall₂_same.2 fun hole _ => ⟨first, f, text, hbody, hline, rfl⟩

end HostModule
end Wordcode
