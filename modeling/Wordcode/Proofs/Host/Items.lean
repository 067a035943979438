import Wordcode.Host.Reader
import Wordcode.Proofs.Lines
import Wordcode.Proofs.Outcome
import Wordcode.Proofs.Text
/-!
# Proofs.Host.Items — a module is its lines, sorted into items

Which lines make which item is a relation (`HostItem.Reads`), and a text is read as a module exactly if its lines make
the module's items, one behind the other (`parse_eq_ok_iff`).  So items that read back from the lines that they are
written as are read from the text of these lines (`parse_unlines`).
-/
namespace Wordcode

open HostModule

/-- A line that stays in an open block: it opens none and does not start with a closing brace. -/
def IsBody (line : String) : Prop := headerName? line = none ∧ Text.after? ['\x7d'] line.toList = none

/-- **The lines that make an item.** -/
inductive HostItem.Reads : HostItem → List String → Prop
  | text {line : String} (hh : headerName? line = none) (hi : importsOf? line = none) : Reads (.text line) [line]
  | declaration {line : String} {imports : List Import} (hh : headerName? line = none)
      (hi : importsOf? line = some imports) : Reads (.declaration line imports) [line]
  | function {f : FunctionBlock} {closing : String} {rest : List Char} (hh : headerName? f.header = some f.name)
      (hb : ∀ line ∈ f.body, IsBody line) (hc : closing.toList = '\x7d' :: rest)
      (hl : f.listing = listingBehind? rest) : Reads (.function f) (f.header :: f.body ++ [closing])

/-- The lines that make items, one behind the other. -/
inductive HostModule.Reads : List HostItem → List String → Prop
  | nil : Reads [] []
  | cons {item : HostItem} {items : List HostItem} {part more : List String} (h : item.Reads part)
      (hs : Reads items more) : Reads (item :: items) (part ++ more)

/-- A line outside of blocks that opens none is an item by itself. -/
theorem reads_itemOf {line : String} (hh : headerName? line = none) : (itemOf line).Reads [line] := by
  unfold itemOf
  cases hi : importsOf? line with
  | none => exact .text hh hi
  | some imports => exact .declaration hh hi

theorem headerName?_of_ne {line : String} {c : Char} {rest : List Char} (h : line.toList = c :: rest) (hc : 'f' ≠ c) :
    headerName? line = none := by
  have hlead : "function ".toList = 'f' :: "unction ".toList := rfl
  rw [headerName?, h, hlead, Text.after?_cons_of_ne hc]
  rfl

namespace HostModule

theorem Reads.append {items items' : List HostItem} {ls ls' : List String} (h : Reads items ls)
    (h' : Reads items' ls') : Reads (items ++ items') (ls ++ ls') := by
  induction h with
  | nil => exact h'
  | cons h _ ih =>
    rw [List.cons_append, List.append_assoc]
    exact .cons h ih

theorem Reads.concat {items : List HostItem} {ls part : List String} {item : HostItem} (h : Reads items ls)
    (hi : item.Reads part) : Reads (items ++ [item]) (ls ++ part) := by
  have hone : Reads [item] (part ++ []) := .cons hi .nil
  rw [List.append_nil] at hone
  exact h.append hone

/-- Each item is made of some of the lines. -/
theorem Reads.of_mem {items : List HostItem} {ls : List String} (h : Reads items ls) {item : HostItem}
    (hi : item ∈ items) : ∃ part, item.Reads part ∧ ∀ l ∈ part, l ∈ ls := by
  induction h with
  | nil => cases hi
  | cons h _ ih =>
    rcases List.mem_cons.1 hi with rfl | hi
    · exact ⟨_, h, fun l hl => List.mem_append_left _ hl⟩
    · obtain ⟨part, hpart, hsub⟩ := ih hi
      exact ⟨part, hpart, fun l hl => List.mem_append_right _ (hsub l hl)⟩

theorem reads_flatMap_lines {items : List HostItem} (h : ∀ item ∈ items, item.Reads item.lines) :
    Reads items (items.flatMap HostItem.lines) := by
  induction items with
  | nil => exact .nil
  | cons item items ih =>
    exact .cons (h item List.mem_cons_self) (ih fun i hi => h i (List.mem_cons_of_mem item hi))

/-! ## What has been read makes the items -/

/-- **What a reading knows of the lines that it has read**: they make its items, and what is left over is its open block
so far. -/
inductive Reading.After : Reading → List String → Prop
  | closed {items : Array HostItem} {ls : List String} (h : Reads items.toList ls) : After ⟨ls.length, items, none⟩ ls
  | opened {items : Array HostItem} {ls : List String} {block : OpenBlock} (h : Reads items.toList ls)
      (hh : headerName? block.header = some block.name) (hb : ∀ line ∈ block.body.toList, IsBody line) :
      After ⟨(ls ++ block.header :: block.body.toList).length, items, some block⟩
        (ls ++ block.header :: block.body.toList)

theorem Reading.after_plain {r : Reading} {ls : List String} (h : r.After ls) {line : String}
    (hline : headerName? line = none) : (r.plain line).After (ls ++ [line]) := by
  cases h with
  | @closed items ls h =>
    have hread : Reads (items.push (itemOf line)).toList (ls ++ [line]) := by
      rw [Array.toList_push]
      exact h.concat (reads_itemOf hline)
    simpa [Reading.plain] using After.closed hread
  | @opened items ls block h hh hb =>
    cases hclose : Text.after? ['\x7d'] line.toList with
    | some rest =>
      have hblock : (HostItem.function (block.close (listingBehind? rest))).Reads
          (block.header :: block.body.toList ++ [line]) :=
        .function hh hb (Text.after?_eq_some_iff.1 hclose) rfl
      have hread : Reads (items.push (.function (block.close (listingBehind? rest)))).toList
          (ls ++ block.header :: block.body.toList ++ [line]) := by
        rw [Array.toList_push, List.append_assoc]
        exact h.concat hblock
      simpa [Reading.plain, hclose, Nat.add_assoc] using After.closed hread
    | none =>
      have hbody : ∀ l ∈ (block.push line).body.toList, IsBody l := by
        intro l hl
        rcases show l ∈ block.body.toList ∨ l = line by simpa [OpenBlock.push] using hl with hl | rfl
        · exact hb l hl
        · exact ⟨hline, hclose⟩
      simpa [Reading.plain, hclose, OpenBlock.push, Nat.add_assoc] using
        @After.opened items ls (block.push line) h hh hbody

/-- **One more line**, whatever it is. -/
theorem Reading.after_step {r r' : Reading} {ls : List String} (h : r.After ls) {line : String}
    (hr : r.step line = .ok r') : r'.After (ls ++ [line]) := by
  unfold Reading.step at hr
  split at hr
  · rename_i hline
    cases hr
    exact after_plain h hline
  · rename_i name hname
    cases h with
    | @closed items ls h =>
      cases hr
      have hopen := @After.opened items ls (.start name line) h hname (fun l hl => by cases hl)
      simpa [OpenBlock.start] using hopen
    | opened => cases hr

theorem Reading.after_foldlM {r r' : Reading} {done ls : List String} (h : r.After done)
    (hr : ls.foldlM Reading.step r = .ok r') : r'.After (done ++ ls) := by
  induction ls generalizing r done with
  | nil =>
    cases hr
    rwa [List.append_nil]
  | cons line ls ih =>
    rw [List.foldlM_cons] at hr
    obtain ⟨r₁, hstep, hr⟩ := bind_eq_ok_iff.1 hr
    have hmore := ih (after_step h hstep) hr
    rwa [List.append_assoc] at hmore

/-! ## Lines that make items are read as them -/

theorem foldlM_step_body {body : List String} (hb : ∀ line ∈ body, IsBody line) (n : Nat) (items : Array HostItem)
    (block : OpenBlock) :
    body.foldlM Reading.step ⟨n, items, some block⟩ =
      .ok ⟨n + body.length, items, some { block with body := block.body ++ body.toArray }⟩ := by
  induction body generalizing n block with
  | nil => simp [pure, Except.pure]
  | cons line body ih =>
    obtain ⟨hh, hc⟩ := hb line List.mem_cons_self
    have hstep : Reading.step ⟨n, items, some block⟩ line = .ok ⟨n + 1, items, some (block.push line)⟩ := by
      simp [Reading.step, hh, Reading.plain, hc]
    rw [List.foldlM_cons, hstep]
    show body.foldlM Reading.step ⟨n + 1, items, some (block.push line)⟩ = _
    rw [ih (fun l hl => hb l (List.mem_cons_of_mem line hl))]
    simp [OpenBlock.push, Nat.add_assoc, Nat.add_comm 1]

/-- **An item's lines are read as the item.** -/
theorem foldlM_step_of_reads {item : HostItem} {ls : List String} (h : item.Reads ls) (n : Nat)
    (items : Array HostItem) :
    ls.foldlM Reading.step ⟨n, items, none⟩ = .ok ⟨n + ls.length, items.push item, none⟩ := by
  cases h with
  | text hh hi => simp [Reading.step, hh, Reading.plain, itemOf, hi, pure, Except.pure, bind, Except.bind]
  | declaration hh hi => simp [Reading.step, hh, Reading.plain, itemOf, hi, pure, Except.pure, bind, Except.bind]
  | @function f closing rest hh hb hc hl =>
    have hopen : Reading.step ⟨n, items, none⟩ f.header = .ok ⟨n + 1, items, some (.start f.name f.header)⟩ := by
      simp [Reading.step, hh]
    have hclosing : ∀ k, Reading.step ⟨k, items, some ⟨f.name, f.header, f.body.toArray⟩⟩ closing =
        .ok ⟨k + 1, items.push (.function f), none⟩ := by
      intro k
      have hafter : Text.after? ['\x7d'] closing.toList = some rest := Text.after?_eq_some_iff.2 hc
      simp [Reading.step, headerName?_of_ne hc (by decide), Reading.plain, hafter, OpenBlock.close, ← hl]
    rw [List.cons_append, List.foldlM_cons, hopen]
    show (f.body ++ [closing]).foldlM Reading.step ⟨n + 1, items, some (.start f.name f.header)⟩ = _
    rw [List.foldlM_append, foldlM_step_body hb]
    have hstart : { OpenBlock.start f.name f.header with body := #[] ++ f.body.toArray } =
        (⟨f.name, f.header, f.body.toArray⟩ : OpenBlock) := by simp [OpenBlock.start]
    show [closing].foldlM Reading.step
      ⟨n + 1 + f.body.length, items, some { OpenBlock.start f.name f.header with body := #[] ++ f.body.toArray }⟩ = _
    rw [hstart, List.foldlM_cons, hclosing]
    simp [pure, Except.pure, bind, Except.bind]
    omega

theorem foldlM_step_of_reads_all {items : List HostItem} {ls : List String} (h : Reads items ls) (n : Nat)
    (done : Array HostItem) :
    ls.foldlM Reading.step ⟨n, done, none⟩ = .ok ⟨n + ls.length, done ++ items.toArray, none⟩ := by
  induction h generalizing n done with
  | nil => simp [pure, Except.pure]
  | @cons item items part more h _ ih =>
    rw [List.foldlM_append, foldlM_step_of_reads h]
    show more.foldlM Reading.step ⟨n + part.length, done.push item, none⟩ = _
    rw [ih]
    simp [Nat.add_assoc]

/-- **A text is read as a module exactly if its lines make the module's items.** -/
theorem parse_eq_ok_iff {text : String} {m : HostModule} : parse text = .ok m ↔ Reads m.items (Text.lines text) := by
  constructor
  · intro h
    obtain ⟨r, hr, hm⟩ := bind_eq_ok_iff.1 h
    have hafter : r.After ([] ++ Text.lines text) := Reading.after_foldlM (.closed .nil) hr
    rw [List.nil_append] at hafter
    generalize Text.lines text = ls at hafter ⊢
    cases hafter with
    | closed hread => cases hm; exact hread
    | opened => cases hm
  · intro h
    have hrun := foldlM_step_of_reads_all h 0 #[]
    refine bind_eq_ok_iff.2 ⟨_, hrun, ?_⟩
    simp [Reading.finish]

/-- **Items that read back from their lines are read from the text of these lines.** -/
theorem parse_unlines {items : List HostItem} (hne : items.flatMap HostItem.lines ≠ [])
    (h : ∀ item ∈ items, item.Reads item.lines)
    (hlines : ∀ l ∈ items.flatMap HostItem.lines, Text.OneLine l) :
    parse (Text.unlines (items.flatMap HostItem.lines)) = .ok ⟨items⟩ := by
  rw [parse_eq_ok_iff, Text.lines_unlines hne hlines]
  exact reads_flatMap_lines h

end HostModule
end Wordcode
