/-!
# Text.Find — looking for a fixed text inside another, and cutting at a character

`contains` agrees with the relation "is a part of" (`contains_iff`).  What is cut apart joins again
(`cutAt?_eq_some`, `intercalate_cutAll`).
-/
namespace Wordcode.Text

/-- What follows `lead` in a text that starts with it. -/
def after? (lead text : List Char) : Option (List Char) := lead.isPrefixOf? text

/-- The text holds `part` somewhere. -/
def contains (part : List Char) : List Char → Bool
  | [] => part.isEmpty
  | c :: text => (after? part (c :: text)).isSome || contains part text

theorem after?_eq_some_iff {lead text rest : List Char} : after? lead text = some rest ↔ text = lead ++ rest := by
  induction lead generalizing text with
  | nil => exact Option.some_inj
  | cons c lead ih =>
    cases text with
    | nil => exact ⟨fun h => (by cases h), fun h => (by cases h)⟩
    | cons d text =>
      have hstep : after? (c :: lead) (d :: text) = if c == d then after? lead text else none := rfl
      by_cases h : c = d
      · subst h
        simp [hstep, ih]
      · have hne : ¬ d = c := fun e => h e.symm
        simp [hstep, h, hne]

/-- **A text contains exactly its parts.** -/
theorem contains_iff (part text : List Char) :
    contains part text = true ↔ ∃ before behind, text = before ++ part ++ behind := by
  induction text with
  | nil =>
    simp only [contains, List.isEmpty_iff]
    constructor
    · rintro rfl; exact ⟨[], [], rfl⟩
    · rintro ⟨b, d, h⟩
      have := List.append_eq_nil_iff.1 h.symm
      exact (List.append_eq_nil_iff.1 this.1).2
  | cons c text ih =>
    rw [contains, Bool.or_eq_true, ih]
    constructor
    · rintro (h | ⟨b, d, rfl⟩)
      · obtain ⟨d, hd⟩ := Option.isSome_iff_exists.1 h
        exact ⟨[], d, by simpa using after?_eq_some_iff.1 hd⟩
      · exact ⟨c :: b, d, by simp⟩
    · rintro ⟨b, d, h⟩
      cases b with
      | nil => exact .inl (Option.isSome_iff_exists.2 ⟨d, after?_eq_some_iff.2 (by simpa using h)⟩)
      | cons x b =>
        simp only [List.cons_append, List.cons.injEq] at h
        exact .inr ⟨b, d, h.2⟩

/-- What stands in front of the first `c` of a text and behind it. -/
def cutAt? (c : Char) : List Char → Option (List Char × List Char)
  | [] => none
  | d :: text => if d = c then some ([], text) else (cutAt? c text).map fun (a, b) => (d :: a, b)

theorem cutAt?_eq_some {c : Char} {text a b : List Char} (h : cutAt? c text = some (a, b)) :
    text = a ++ c :: b ∧ c ∉ a := by
  induction text generalizing a with
  | nil => cases h
  | cons d text ih =>
    unfold cutAt? at h
    split at h
    · rename_i hd
      obtain ⟨rfl, rfl⟩ := Prod.mk.inj (Option.some.inj h)
      exact ⟨by rw [hd]; rfl, by simp⟩
    · rename_i hd
      obtain ⟨⟨a', b'⟩, hc, he⟩ := Option.map_eq_some_iff.1 h
      obtain ⟨rfl, rfl⟩ := Prod.mk.inj he
      obtain ⟨h1, h2⟩ := ih hc
      exact ⟨by rw [h1]; rfl, by simp [h2, Ne.symm hd]⟩

/-- A character joins the first of several parts. -/
def intoFirst (c : Char) : List (List Char) → List (List Char)
  | [] => [[c]]
  | part :: more => (c :: part) :: more

/-- The parts of a text between the `c`s. -/
def cutAll (c : Char) : List Char → List (List Char)
  | [] => [[]]
  | d :: text => if d = c then [] :: cutAll c text else intoFirst d (cutAll c text)

theorem cutAll_ne_nil (c : Char) (text : List Char) : cutAll c text ≠ [] := by
  cases text with
  | nil => simp [cutAll]
  | cons d text =>
    unfold cutAll
    split
    · simp
    · cases cutAll c text <;> simp [intoFirst]

theorem intercalate_intoFirst (sep : List Char) (c : Char) {parts : List (List Char)} (h : parts ≠ []) :
    sep.intercalate (intoFirst c parts) = c :: sep.intercalate parts := by
  match parts, h with
  | [p], _ => simp [intoFirst]
  | p :: q :: ps, _ => simp [intoFirst, List.intercalate_cons_cons]

theorem intercalate_nil_cons (sep : List Char) {parts : List (List Char)} (h : parts ≠ []) :
    sep.intercalate ([] :: parts) = sep ++ sep.intercalate parts := by
  match parts, h with
  | p :: ps, _ => rw [List.intercalate_cons_cons, List.nil_append]

/-- The parts with the character between any two of them are the text. -/
theorem intercalate_cutAll (c : Char) (text : List Char) : [c].intercalate (cutAll c text) = text := by
  induction text with
  | nil => simp [cutAll]
  | cons d text ih =>
    unfold cutAll
    split
    · rename_i h
      rw [intercalate_nil_cons _ (cutAll_ne_nil c text), ih, h]; rfl
    · rw [intercalate_intoFirst _ _ (cutAll_ne_nil c text), ih]

end Wordcode.Text
