import Mathlib.Data.List.Induction
import Mathlib.Order.Bounds.Defs
import Wordcode.Host.Reader
import Wordcode.Text.Bytes
/-!
# Proofs.Host.Commas — a declaration is cut at its outer commas and nowhere else

How deep in brackets a text leaves off is the largest surplus of opening brackets that any end of it has
(`isGreatest_depthBehind`).  The parts of a text end exactly at the commas at which no bracket is open
(`cutsOf_splitTopLevel`), so no part has another place to cut (`splitTopLevel_of_mem`), and cutting by byte places, each
part from behind the last comma, gives the same parts (`slices_commaSpans`).
-/
namespace Wordcode.HostModule

open Text (byteLen intoFirst)

/-! ## Depth -/

/-- How deep in brackets a text leaves off that starts at a depth. -/
def depthBehind (depth : Nat) (text : List Char) : Nat := text.foldl depthAfter depth

def isOpening (c : Char) : Bool := c == '(' || c == '[' || c == '\x7b'

def isClosing (c : Char) : Bool := c == ')' || c == ']' || c == '\x7d'

theorem depthAfter_eq (depth : Nat) (c : Char) :
    depthAfter depth c = if isOpening c then depth + 1 else if isClosing c then depth - 1 else depth := by
  simp only [depthAfter, isOpening, isClosing, Bool.or_eq_true, beq_iff_eq, or_assoc]

theorem isClosing_of_isOpening {c : Char} (h : isOpening c = true) : isClosing c = false := by
  simp only [isOpening, Bool.or_eq_true, beq_iff_eq, or_assoc] at h
  rcases h with rfl | rfl | rfl <;> rfl

theorem depthBehind_concat (depth : Nat) (text : List Char) (c : Char) :
    depthBehind depth (text ++ [c]) = depthAfter (depthBehind depth text) c := by
  rw [depthBehind, List.foldl_append]
  rfl

/-- By so many brackets more an end of the text opens than it closes. -/
def Surplus (text : List Char) (n : Nat) : Prop :=
  ∃ back, back <:+ text ∧ back.countP isOpening = back.countP isClosing + n

/-- One more character: no surplus is there still, and an opening bracket adds to each other one, a closing one takes
from it. -/
theorem surplus_concat_iff (text : List Char) (c : Char) (n : Nat) :
    Surplus (text ++ [c]) n ↔ n = 0 ∨
      if isOpening c then ∃ m, n = m + 1 ∧ Surplus text m else Surplus text (if isClosing c then n + 1 else n) := by
  have hsuffix : Surplus (text ++ [c]) n ↔ n = 0 ∨ ∃ back, back <:+ text ∧
      back.countP isOpening + (if isOpening c then 1 else 0) =
        back.countP isClosing + (if isClosing c then 1 else 0) + n := by
    simp only [Surplus, List.suffix_concat_iff]
    constructor
    · rintro ⟨_, rfl | ⟨back, rfl, hback⟩, hn⟩
      · exact .inl (by simpa using hn.symm)
      · rw [List.countP_append, List.countP_append, List.countP_singleton, List.countP_singleton] at hn
        exact .inr ⟨back, hback, hn⟩
    · rintro (rfl | ⟨back, hback, hn⟩)
      · exact ⟨[], .inl rfl, rfl⟩
      · refine ⟨back ++ [c], .inr ⟨back, rfl, hback⟩, ?_⟩
        rwa [List.countP_append, List.countP_append, List.countP_singleton, List.countP_singleton]
  rw [hsuffix]
  by_cases hopen : isOpening c = true
  · rw [if_pos hopen, if_pos hopen, isClosing_of_isOpening hopen]
    constructor
    · rintro (rfl | ⟨back, hback, hn⟩)
      · exact .inl rfl
      · cases n with
        | zero => exact .inl rfl
        | succ m => exact .inr ⟨m, rfl, back, hback, Nat.succ.inj hn⟩
    · rintro (rfl | ⟨m, rfl, back, hback, hn⟩)
      · exact .inl rfl
      · exact .inr ⟨back, hback, by simp [hn, Nat.add_assoc]⟩
  · rw [if_neg hopen, if_neg hopen]
    refine or_congr_right (exists_congr fun back => and_congr_right fun _ => ?_)
    split <;> omega

/-- **The depth behind a text is the largest surplus of opening brackets at its end.** -/
theorem isGreatest_depthBehind (text : List Char) : IsGreatest {n | Surplus text n} (depthBehind 0 text) := by
  induction text using List.reverseRecOn with
  | nil =>
    refine ⟨⟨[], List.suffix_rfl, rfl⟩, fun n ⟨back, hback, hn⟩ => ?_⟩
    rw [List.suffix_nil.1 hback] at hn
    exact Nat.le_of_eq (by simpa [depthBehind] using hn.symm)
  | append_singleton text c ih =>
    obtain ⟨hdepth, hle⟩ := ih
    have hle : ∀ n, Surplus text n → n ≤ depthBehind 0 text := fun n h => hle h
    have hconcat := surplus_concat_iff text c
    rw [depthBehind_concat, depthAfter_eq]
    generalize depthBehind 0 text = depth at hdepth hle
    by_cases hopen : isOpening c = true
    · simp only [if_pos hopen] at hconcat ⊢
      refine ⟨(hconcat _).2 (.inr ⟨depth, rfl, hdepth⟩), fun n hn => ?_⟩
      rcases (hconcat n).1 hn with rfl | ⟨m, rfl, hm⟩
      · exact Nat.zero_le _
      · exact Nat.succ_le_succ (hle m hm)
    by_cases hclose : isClosing c = true
    · simp only [if_neg hopen, if_pos hclose] at hconcat ⊢
      refine ⟨(hconcat _).2 ?_, fun n hn => ?_⟩
      · -- at depth zero the bracket closes nothing
        cases depth with
        | zero => exact .inl rfl
        | succ depth => exact .inr hdepth
      · rcases (hconcat n).1 hn with rfl | hn
        · exact Nat.zero_le _
        · exact Nat.le_sub_one_of_lt (hle _ hn)
    · simp only [if_neg hopen, if_neg hclose] at hconcat ⊢
      refine ⟨(hconcat _).2 (.inr hdepth), fun n hn => ?_⟩
      rcases (hconcat n).1 hn with rfl | hn
      · exact Nat.zero_le _
      · exact hle n hn

/-! ## Cuts -/

/-- The places of the commas between parts of a text. -/
def cutsOf : List (List Char) → List Nat
  | part :: next :: more => part.length :: (cutsOf (next :: more)).map (part.length + 1 + ·)
  | _ => []

/-- The places of the commas of a text at which no bracket is open. -/
def outerCommas (depth : Nat) (text : List Char) : List Nat :=
  (List.range text.length).filter fun p => text[p]? = some ',' ∧ depthBehind depth (text.take p) = 0

theorem outerCommas_cons (depth : Nat) (c : Char) (text : List Char) :
    outerCommas depth (c :: text) =
      (if c = ',' ∧ depth = 0 then [0] else []) ++ (outerCommas (depthAfter depth c) text).map (1 + ·) := by
  have hshift : ∀ p, (decide ((c :: text)[p + 1]? = some ',' ∧ depthBehind depth ((c :: text).take (p + 1)) = 0)) =
      decide (text[p]? = some ',' ∧ depthBehind (depthAfter depth c) (text.take p) = 0) := fun p => rfl
  rw [outerCommas, List.length_cons, List.range_succ_eq_map, List.filter_cons, List.filter_map]
  simp only [Function.comp_def, Nat.succ_eq_add_one, hshift]
  have hfirst : decide ((c :: text)[0]? = some ',' ∧ depthBehind depth ((c :: text).take 0) = 0) =
      decide (c = ',' ∧ depth = 0) := by simp [depthBehind]
  rw [hfirst, outerCommas]
  simp only [decide_eq_true_eq, Nat.add_comm 1]
  split <;> rfl

theorem cutsOf_nil_cons {parts : List (List Char)} (h : parts ≠ []) :
    cutsOf ([] :: parts) = 0 :: (cutsOf parts).map (1 + ·) := by
  obtain ⟨next, more, rfl⟩ := List.exists_cons_of_ne_nil h
  simp [cutsOf]

theorem cutsOf_intoFirst (c : Char) {parts : List (List Char)} (h : parts ≠ []) :
    cutsOf (intoFirst c parts) = (cutsOf parts).map (1 + ·) := by
  match parts, h with
  | [part], _ => rfl
  | part :: next :: more, _ =>
    simp only [intoFirst, cutsOf, List.length_cons, List.map_cons, List.map_map, Function.comp_def]
    simp only [Nat.add_comm 1, Nat.add_right_comm]

/-- **A text is cut at its outer commas.** -/
theorem cutsOf_splitTopLevel (depth : Nat) (text : List Char) :
    cutsOf (splitTopLevel depth text) = outerCommas depth text := by
  induction text generalizing depth with
  | nil => rfl
  | cons c text ih =>
    rw [outerCommas_cons, ← ih, splitTopLevel]
    split
    · rename_i h
      obtain ⟨rfl, rfl⟩ := h
      rw [cutsOf_nil_cons (splitTopLevel_ne_nil 0 text)]
      rfl
    · rw [cutsOf_intoFirst c (splitTopLevel_ne_nil _ text)]
      rfl

/-! ## Parts -/

/-- Cutting a part again, from the depth at which it starts, leaves it whole. -/
theorem splitTopLevel_part (depth : Nat) (text : List Char) {first : List Char} {more : List (List Char)}
    (h : splitTopLevel depth text = first :: more) :
    splitTopLevel depth first = [first] ∧ ∀ part ∈ more, splitTopLevel 0 part = [part] := by
  induction text generalizing depth first more with
  | nil =>
    cases h
    exact ⟨rfl, fun part hpart => by cases hpart⟩
  | cons c text ih =>
    rw [splitTopLevel] at h
    split at h
    · cases h
      obtain ⟨next, more, hnext⟩ := List.exists_cons_of_ne_nil (splitTopLevel_ne_nil 0 text)
      obtain ⟨hfirst, hmore⟩ := ih 0 hnext
      rw [hnext]
      exact ⟨rfl, List.forall_mem_cons.2 ⟨hfirst, hmore⟩⟩
    · rename_i hcut
      obtain ⟨front, rest, hfront⟩ := List.exists_cons_of_ne_nil (splitTopLevel_ne_nil (depthAfter depth c) text)
      rw [hfront] at h
      cases h
      obtain ⟨hfirst, hmore⟩ := ih _ hfront
      exact ⟨by rw [splitTopLevel, if_neg hcut, hfirst]; rfl, hmore⟩

/-- **No part has another place to cut.** -/
theorem splitTopLevel_of_mem {text part : List Char} (h : part ∈ splitTopLevel 0 text) :
    splitTopLevel 0 part = [part] := by
  obtain ⟨first, more, hparts⟩ := List.exists_cons_of_ne_nil (splitTopLevel_ne_nil 0 text)
  obtain ⟨hfirst, hmore⟩ := splitTopLevel_part 0 text hparts
  rw [hparts] at h
  rcases List.mem_cons.1 h with rfl | h
  · exact hfirst
  · exact hmore part h

/-! ## Byte places -/

/-- The bytes of each part: the part that is being read starts at `start`, and the text goes on at `pos`. -/
def commaSpans (depth start pos : Nat) : List Char → List Span
  | [] => [⟨start, pos⟩]
  | c :: rest =>
    if c = ',' ∧ depth = 0 then ⟨start, pos⟩ :: commaSpans depth (pos + 1) (pos + c.utf8Size) rest
    else commaSpans (depthAfter depth c) start (pos + c.utf8Size) rest

/-- The bytes of a text in a span. -/
def slice (text : String) (span : Span) : ByteArray := text.toByteArray.extract span.start span.stop

theorem modifyHead_intoFirst (run : List Char) (c : Char) {parts : List (List Char)} (h : parts ≠ []) :
    (intoFirst c parts).modifyHead (run ++ ·) = parts.modifyHead (run ++ [c] ++ ·) := by
  obtain ⟨first, more, rfl⟩ := List.exists_cons_of_ne_nil h
  simp [intoFirst]

theorem modifyHead_nil_append (parts : List (List Char)) : parts.modifyHead ([] ++ ·) = parts := by
  cases parts <;> rfl

/-- **Each span has the bytes of its part.**  In front of the part that is being read stands `before`, and `run` is
what has been read of it. -/
theorem slices_commaSpans {text : String} (depth : Nat) (before run rest : List Char)
    (h : text.toList = before ++ (run ++ rest)) :
    (commaSpans depth (byteLen before) (byteLen before + byteLen run) rest).map (slice text) =
      ((splitTopLevel depth rest).modifyHead (run ++ ·)).map fun part => (String.ofList part).toByteArray := by
  induction rest generalizing depth before run with
  | nil => simp [commaSpans, splitTopLevel, slice, Text.extract_toByteArray h]
  | cons c rest ih =>
    rw [commaSpans, splitTopLevel]
    split
    · rename_i hcut
      obtain ⟨rfl, rfl⟩ := hcut
      have hnext := ih 0 (before ++ run ++ [',']) [] (by simp [h])
      have hpos : byteLen (before ++ run ++ [',']) = byteLen before + byteLen run + ','.utf8Size := by
        simp [Nat.add_assoc]
      rw [modifyHead_nil_append, hpos] at hnext
      rw [List.map_cons, slice, Text.extract_toByteArray h, List.modifyHead_cons, List.append_nil, List.map_cons,
        ← hnext]
      rfl
    · have hnext := ih (depthAfter depth c) before (run ++ [c]) (by simp [h])
      rw [modifyHead_intoFirst run c (splitTopLevel_ne_nil _ rest), ← hnext, Text.byteLen_append, Nat.add_assoc]
      rfl

/-- **A text is cut exactly at the commas that no bracket is open at.** -/
theorem splitTopLevel_cuts_at_outer_commas (text : String) :
    [','].intercalate (splitTopLevel 0 text.toList) = text.toList ∧
    cutsOf (splitTopLevel 0 text.toList) = outerCommas 0 text.toList ∧
    (∀ front, IsGreatest {n | Surplus front n} (depthBehind 0 front)) ∧
    (∀ part ∈ splitTopLevel 0 text.toList, splitTopLevel 0 part = [part]) ∧
    (commaSpans 0 0 0 text.toList).map (slice text) =
      (splitTopLevel 0 text.toList).map fun part => (String.ofList part).toByteArray := by
  refine ⟨intercalate_splitTopLevel 0 _, cutsOf_splitTopLevel 0 _, isGreatest_depthBehind,
    fun _ => splitTopLevel_of_mem, ?_⟩
  have hslices := slices_commaSpans 0 [] [] text.toList rfl
  rwa [modifyHead_nil_append] at hslices

-- a bracket that closes nothing keeps no comma from cutting
example : splitTopLevel 0 "a]=f(1,(é,2),b],c".toList = ["a]=f(1,(é,2),b]".toList, ['c']] := by decide

end Wordcode.HostModule
