import Wordcode.Host.Reader
import Wordcode.Proofs.Host.Items
import Wordcode.Proofs.Placeholder
/-!
# Proofs.Host.Filled — a line whose placeholders are filled stays the kind of line that it was

A placeholder and an address are made of the same few characters and start with the same one.  So filling keeps the
front of a line up to its first parenthesis (`takeWhile_fillLine`) and every character of another kind
(`mem_fillLine_iff`), which is all that decides what the line is (`headerName?_fillLine`, `isBody_fillLine`).
-/
namespace Wordcode

namespace Placeholder

variable (address? : String → Option UInt32)

/-- A character that a placeholder or an address is made of. -/
def isMarkChar (c : Char) : Bool := c == '(' || c == ')' || isNameChar c

theorem isMarkChar_of_mem_chars {name : String} (hn : IsName name) : ∀ c ∈ chars name, isMarkChar c = true := by
  have hopening : ∀ c ∈ opening, isMarkChar c = true := List.all_eq_true.1 (by decide)
  intro c hc
  rcases List.mem_append.1 hc with hc | hc
  · rcases List.mem_append.1 hc with hc | hc
    · exact hopening c hc
    · simp [isMarkChar, hn.2 c hc]
  · rw [List.mem_singleton.1 hc]
    rfl

theorem isMarkChar_of_mem_addressChars (address : UInt32) : ∀ c ∈ addressChars address, isMarkChar c = true := by
  intro c hc
  rcases List.mem_append.1 hc with hc | hc
  · rcases List.mem_cons.1 hc with rfl | hc
    · rfl
    · have hdigit := Text.isDigit_of_mem_toString hc
      simp [isMarkChar, isNameChar, Char.isAlphanum, hdigit]
  · rw [List.mem_singleton.1 hc]
    rfl

/-- What stands for a placeholder in a filled line opens with a parenthesis, as the placeholder does. -/
theorem fill_hole_eq_cons (name : String) :
    ∃ tail, (Piece.hole name).fill address? = '(' :: tail := by
  rw [Piece.fill]
  cases address? name with
  | none => exact ⟨_, rfl⟩
  | some address => exact ⟨_, rfl⟩

theorem isMarkChar_of_mem_fill {name : String} (hn : IsName name) :
    ∀ c ∈ (Piece.hole name).fill address?, isMarkChar c = true := by
  rw [Piece.fill]
  cases address? name with
  | none => exact isMarkChar_of_mem_chars hn
  | some address => exact isMarkChar_of_mem_addressChars address

theorem toList_fillLine (line : String) :
    (fillLine address? line).toList = (pieces line.toList).flatMap (Piece.fill address?) := String.toList_ofList

/-- **Filling adds and takes away only characters that placeholders and addresses are made of.** -/
theorem mem_fillLine_iff {c : Char} (hc : isMarkChar c = false) (line : String) :
    c ∈ (fillLine address? line).toList ↔ c ∈ line.toList := by
  rw [toList_fillLine]
  generalize line.toList = cs
  fun_induction pieces cs with
  | case1 => rfl
  | case2 d cs name behind h ih =>
    obtain ⟨hcs, hn⟩ := read?_eq_some_iff.1 h
    have hfill : c ∉ (Piece.hole name).fill address? := fun hm => by
      rw [isMarkChar_of_mem_fill address? hn c hm] at hc; cases hc
    have hchars : c ∉ chars name := fun hm => by rw [isMarkChar_of_mem_chars hn c hm] at hc; cases hc
    rw [hcs, List.flatMap_cons, List.mem_append, List.mem_append, ih]
    simp [hfill, hchars]
  | case3 d cs h ih =>
    rw [List.flatMap_cons, List.mem_append, ih, List.mem_cons]
    simp [Piece.fill]

/-- **The front of a line, up to the first parenthesis, is left alone.** -/
theorem takeWhile_fillLine (line : String) :
    (fillLine address? line).toList.takeWhile (fun c => c != '(') = line.toList.takeWhile fun c => c != '(' := by
  rw [toList_fillLine]
  generalize line.toList = cs
  fun_induction pieces cs with
  | case1 => rfl
  | case2 d cs name behind h ih =>
    obtain ⟨tail, htail⟩ := fill_hole_eq_cons address? name
    have hd := (read?_eq_some_iff.1 h).1
    rw [List.flatMap_cons, htail, hd]
    simp [chars, opening]
  | case3 d cs h ih =>
    rw [List.flatMap_cons, Piece.fill, List.singleton_append, List.takeWhile_cons, List.takeWhile_cons, ih]

theorem oneLine_fillLine {line : String} (h : Text.OneLine line) : Text.OneLine (fillLine address? line) := by
  intro c hc
  cases hm : isMarkChar c with
  | false => exact h c ((mem_fillLine_iff address? hm line).1 hc)
  | true => constructor <;> rintro rfl <;> exact absurd hm (by decide)

end Placeholder

namespace HostModule

/-- **What a line opens a block for** depends on its front and on whether a closing brace stands anywhere in it. -/
theorem headerName?_congr {line line' : String}
    (hfront : line.toList.takeWhile (fun c => c != '(') = line'.toList.takeWhile fun c => c != '(')
    (hbrace : '\x7d' ∈ line.toList ↔ '\x7d' ∈ line'.toList) : headerName? line = headerName? line' := by
  have hlead : ∀ c ∈ "function ".toList, (fun c => c != '(') c = true := List.all_eq_true.1 (by decide)
  have hname : (Text.after? "function ".toList line.toList).map (List.takeWhile fun c => c != '(') =
      (Text.after? "function ".toList line'.toList).map (List.takeWhile fun c => c != '(') := by
    rw [← Text.after?_takeWhile hlead, ← Text.after?_takeWhile hlead, hfront]
  have hcontains : line.toList.contains '\x7d' = line'.toList.contains '\x7d' := by
    rw [Bool.eq_iff_iff, List.contains_iff_mem, List.contains_iff_mem, hbrace]
  unfold headerName?
  rw [hcontains]
  generalize Text.after? "function ".toList line.toList = rest at hname ⊢
  generalize Text.after? "function ".toList line'.toList = rest' at hname ⊢
  cases rest with
  | none =>
    cases rest' with
    | none => rfl
    | some _ => cases hname
  | some rest =>
    cases rest' with
    | none => cases hname
    | some rest' => simp only [Option.bind_eq_bind, Option.bind_some, Option.some.inj hname]

variable (address? : String → Option UInt32)

/-- **A line opens a block when its placeholders are filled exactly if it does before**, and for the same function. -/
theorem headerName?_fillLine (line : String) : headerName? (Placeholder.fillLine address? line) = headerName? line :=
  headerName?_congr (Placeholder.takeWhile_fillLine address? line)
    (Placeholder.mem_fillLine_iff address? (by decide) line)

end HostModule

/-- **A line of a body is one when its placeholders are filled.** -/
theorem isBody_fillLine (address? : String → Option UInt32) {line : String} (h : IsBody line) :
    IsBody (Placeholder.fillLine address? line) := by
  refine ⟨by rw [HostModule.headerName?_fillLine, h.1], ?_⟩
  have hlead : ∀ c ∈ ['\x7d'], (fun c => c != '(') c = true := List.all_eq_true.1 (by decide)
  have hfront := Text.after?_takeWhile hlead (Placeholder.fillLine address? line).toList
  rw [Placeholder.takeWhile_fillLine, Text.after?_takeWhile hlead, h.2] at hfront
  exact Option.map_eq_none_iff.1 hfront.symm

end Wordcode
