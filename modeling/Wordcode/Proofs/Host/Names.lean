import Wordcode.Proofs.Host.Items
import Wordcode.Symbols
/-!
# Proofs.Host.Names — the names in a module are parts of its lines

A function's name stands in its header and an import's name in its declaration (`mem_line_of_headerName?`,
`mem_line_of_importsOf?`), so no call target of a module whose lines hold no line ends has one in its name
(`oneLine_of_mem_names`).
-/
namespace Wordcode

namespace Text

theorem mem_of_mem_trimChars {c : Char} {cs : List Char} (h : c ∈ trimChars cs) : c ∈ cs := by
  have hend := (List.dropWhile_sublist isBlank).subset (List.mem_reverse.1 h)
  exact (List.dropWhile_sublist isBlank).subset (List.mem_reverse.1 hend)

theorem mem_of_after? {lead cs rest : List Char} (h : after? lead cs = some rest) {c : Char} (hc : c ∈ rest) :
    c ∈ cs := by
  rw [after?_eq_some_iff.1 h]
  exact List.mem_append_right lead hc

theorem mem_intercalate_of_mem {sep part : List Char} {parts : List (List Char)} (hp : part ∈ parts) {c : Char}
    (hc : c ∈ part) : c ∈ sep.intercalate parts := by
  induction parts with
  | nil => cases hp
  | cons first more ih =>
    cases more with
    | nil =>
      rw [List.mem_singleton.1 hp] at hc
      simpa using hc
    | cons second more =>
      rw [List.intercalate_cons_cons]
      rcases List.mem_cons.1 hp with rfl | hp
      · exact List.mem_append_left _ (List.mem_append_left _ hc)
      · exact List.mem_append_right _ (ih hp)

end Text

namespace HostModule

theorem mem_line_of_headerName? {line name : String} (h : headerName? line = some name) {c : Char}
    (hc : c ∈ name.toList) : c ∈ line.toList := by
  obtain ⟨rest, hrest, h⟩ := Option.bind_eq_some_iff.1 h
  simp only at h
  split at h
  · cases h
  · cases h
    rw [String.toList_ofList] at hc
    exact Text.mem_of_after? hrest ((List.takeWhile_sublist _).subset (Text.mem_of_mem_trimChars hc))

theorem mem_part_of_importOf? {part : List Char} {i : Import} (h : importOf? part = some i) {c : Char}
    (hc : c ∈ i.name.toList) : c ∈ part := by
  obtain ⟨⟨name, value⟩, hcut, h⟩ := Option.bind_eq_some_iff.1 h
  simp only at h
  split at h
  · cases h
  · cases h
    rw [String.toList_ofList] at hc
    rw [(Text.cutAt?_eq_some hcut).1]
    exact List.mem_append_left _ (Text.mem_of_mem_trimChars hc)

theorem mem_of_mem_dropSemicolon {text : List Char} {c : Char} (h : c ∈ dropSemicolon text) : c ∈ text := by
  unfold dropSemicolon at h
  split at h
  · exact List.dropLast_subset text h
  · exact h

theorem mem_line_of_importsOf? {line : String} {imports : List Import} (h : importsOf? line = some imports)
    {i : Import} (hi : i ∈ imports) {c : Char} (hc : c ∈ i.name.toList) : c ∈ line.toList := by
  obtain ⟨body, hbody, h⟩ := Option.bind_eq_some_iff.1 h
  obtain ⟨part, hpart, hone⟩ := exists_of_mem_of_mapM_eq_some h i hi
  have hmem : c ∈ dropSemicolon body := by
    rw [← intercalate_splitTopLevel 0 (dropSemicolon body)]
    exact Text.mem_intercalate_of_mem hpart (mem_part_of_importOf? hone hc)
  exact Text.mem_of_mem_trimChars (Text.mem_of_after? hbody (mem_of_mem_dropSemicolon hmem))

/-- The lines that are written for an item are the lines that it was read from, but for the closing line. -/
theorem oneLine_lines_of_reads {item : HostItem} {part : List String} (h : item.Reads part)
    (hl : ∀ l ∈ part, Text.OneLine l) : ∀ l ∈ item.lines, Text.OneLine l := by
  cases h with
  | text => exact hl
  | declaration => exact hl
  | @function f closing rest hh hb hc hlisting =>
    intro l hmem
    rcases List.mem_append.1 hmem with hmem | hmem
    · exact hl l (List.mem_append_left _ hmem)
    · rw [List.mem_singleton.1 hmem]
      decide

/-- What an item declares or defines is named by a line of it. -/
theorem oneLine_names_of_reads {item : HostItem} {part : List String} (h : item.Reads part)
    (hl : ∀ l ∈ part, Text.OneLine l) :
    (∀ i ∈ item.imports, Text.OneLine i.name) ∧ ∀ f ∈ item.block?, Text.OneLine f.name := by
  cases h with
  | text => exact ⟨fun i hi => (by cases hi), fun f hf => (by cases hf)⟩
  | @declaration line imports hh himports =>
    refine ⟨fun i hi => ?_, fun f hf => (by cases hf)⟩
    exact (hl line List.mem_cons_self).of_subset fun c hc => mem_line_of_importsOf? himports hi hc
  | @function f closing rest hh hb hc hlisting =>
    refine ⟨fun i hi => (by cases hi), fun g hg => ?_⟩
    cases hg
    exact (hl f.header List.mem_cons_self).of_subset fun c hc => mem_line_of_headerName? hh hc

/-- **The call targets of a module whose lines hold no line ends** have none in their names. -/
theorem oneLine_of_mem_names {m : HostModule} {ls : List String} (h : Reads m.items ls)
    (hl : ∀ l ∈ ls, Text.OneLine l) {name : String}
    (hn : name ∈ SymbolTable.callTargets m.imports (m.functions.map FunctionBlock.name)) : Text.OneLine name := by
  have hitem : ∀ item ∈ m.items, (∀ i ∈ item.imports, Text.OneLine i.name) ∧
      ∀ f ∈ item.block?, Text.OneLine f.name := fun item hi => by
    obtain ⟨part, hpart, hsub⟩ := h.of_mem hi
    exact oneLine_names_of_reads hpart fun l hlp => hl l (hsub l hlp)
  rw [SymbolTable.callTargets, SymbolTable.firstSeen, List.mem_eraseDups] at hn
  rcases List.mem_append.1 (List.mem_filter.1 hn).1 with hn | hn
  · obtain ⟨i, hi, rfl⟩ := List.mem_map.1 hn
    obtain ⟨item, hmem, hii⟩ := List.mem_flatMap.1 (List.mem_filter.1 hi).1
    exact (hitem item hmem).1 i hii
  · obtain ⟨f, hf, rfl⟩ := List.mem_map.1 hn
    obtain ⟨item, hmem, hfi⟩ := List.mem_filterMap.1 hf
    exact (hitem item hmem).2 f hfi

end HostModule
end Wordcode
