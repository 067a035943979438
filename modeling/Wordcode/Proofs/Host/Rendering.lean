import Wordcode.Proofs.ModuleText
/-!
# Proofs.Host.Rendering — a module is written as its lines, and read back from them

Further declarations go behind the last declaration of a module, and there is one way to cut the items there
(`EndsDeclarations.unique`).  Writing the items one by one, with a count of them, comes to the same wherever that place
is: in front of all items, between two of them or behind the last (`renderByPlace_eq`, `render_places_once`).  With
nothing further a module is written as lines of the kinds that its items say, so it is read back (`parse_render`).
-/
namespace Wordcode
namespace HostModule

variable {items front back : List HostItem}

/-! ## Where further declarations go -/

/-- **The front ends with the last declaration of the items**, or there is none and the front is empty. -/
structure EndsDeclarations (items front back : List HostItem) : Prop where
  items_eq : items = front ++ back
  declares : ∀ item ∈ front.getLast?, item.isDeclaration = true
  declares_no_more : ∀ item ∈ back, item.isDeclaration = false

theorem endsDeclarations (m : HostModule) : EndsDeclarations m.items m.declaring m.undeclaring where
  items_eq := m.declaring_append_undeclaring.symm
  declares := m.isDeclaration_getLast?_declaring
  declares_no_more := m.isDeclaration_of_mem_undeclaring

theorem EndsDeclarations.unique {m : HostModule} (h : EndsDeclarations m.items front back) :
    m.declaring = front ∧ m.undeclaring = back := by
  -- from the end, everything behind the last declaration is dropped, and nothing more
  have hback : ∀ item ∈ back.reverse, (!item.isDeclaration) = true := fun item hi => by
    simp [h.declares_no_more item (List.mem_reverse.1 hi)]
  have hrev : m.items.reverse = back.reverse ++ front.reverse := by rw [h.items_eq, List.reverse_append]
  have hfront : front.reverse.dropWhile (fun item => !item.isDeclaration) = front.reverse := by
    cases hlast : front.reverse with
    | nil => rfl
    | cons item more =>
      have hdeclares := h.declares item (by rw [← List.head?_reverse, hlast]; rfl)
      rw [List.dropWhile_cons_of_neg (by simp [hdeclares])]
  have hdeclaring : m.declaring = front := by
    rw [declaring, hrev, List.dropWhile_append_of_pos hback, hfront, List.reverse_reverse]
  refine ⟨hdeclaring, ?_⟩
  have hall := m.declaring_append_undeclaring
  rwa [hdeclaring, h.items_eq, List.append_cancel_left_eq] at hall

/-- How many items stand in front of the place for further declarations. -/
def insertAt (items : List HostItem) : Nat :=
  match items.reverse.findIdx? HostItem.isDeclaration with
  | some k => items.length - 1 - k + 1
  | none => 0

theorem length_dropWhile_not {α : Type} (p : α → Bool) (l : List α) :
    (l.dropWhile fun a => !p a).length = match l.findIdx? p with
      | some k => l.length - 1 - k + 1
      | none => 0 := by
  induction l with
  | nil => rfl
  | cons a l ih =>
    rw [List.findIdx?_cons]
    cases ha : p a with
    | true => simp [ha]
    | false =>
      rw [List.dropWhile_cons_of_pos (by simp [ha]), ih]
      cases hk : l.findIdx? p with
      | none => simp
      | some k =>
        have hlt := (List.findIdx?_eq_some_iff_getElem.1 hk).1
        simp
        omega

theorem insertAt_eq (m : HostModule) : insertAt m.items = m.declaring.length := by
  rw [declaring, List.length_reverse, length_dropWhile_not, List.length_reverse, insertAt]

/-! ## Item by item -/

/-- One more item is written, the further declarations in front of it if this is their place. -/
def writeItem (place : Nat) (declarations out : List String) : HostItem × Nat → List String
  | (item, i) =>
    let out := if i = place then out ++ declarations else out
    match item with
    | .text line => out ++ [line]
    | .declaration line _ => out ++ [line]
    | .function f => out ++ [f.header] ++ f.body ++ ["\x7d"]

/-- **Writing a module item by item**; behind the last item, the further declarations if this is their place. -/
def renderByPlace (m : HostModule) (declarations appended : List String) : String :=
  let place := insertAt m.items
  let out := m.items.zipIdx.foldl (writeItem place declarations) []
  let out := if place = m.items.length then out ++ declarations else out
  "\n".intercalate (out ++ appended) ++ "\n"

variable {place : Nat} {declarations : List String}

theorem writeItem_eq (out : List String) (item : HostItem) (i : Nat) :
    writeItem place declarations out (item, i) = (if i = place then out ++ declarations else out) ++ item.lines := by
  cases item with
  | text line => rfl
  | declaration line imports => rfl
  | function f => simp [writeItem, HostItem.lines, FunctionBlock.lines]

theorem foldl_writeItem_away {i : Nat} (h : ∀ j, i ≤ j → j < i + items.length → j ≠ place) (out : List String) :
    (items.zipIdx i).foldl (writeItem place declarations) out = out ++ items.flatMap HostItem.lines := by
  induction items generalizing i out with
  | nil => simp
  | cons item items ih =>
    have hi : i ≠ place := h i (Nat.le_refl i) (by simp)
    have hmore : ∀ j, i + 1 ≤ j → j < i + 1 + items.length → j ≠ place := fun j hj hlt =>
      h j (by omega) (by rw [List.length_cons]; omega)
    rw [List.zipIdx_cons, List.foldl_cons, writeItem_eq, if_neg hi, ih hmore, List.flatMap_cons, List.append_assoc]

/-- **Items on both sides of the place for further declarations**, which are written between the two sides. -/
theorem foldl_writeItem (h : back ≠ []) :
    ((front ++ back).zipIdx).foldl (writeItem front.length declarations) [] =
      front.flatMap HostItem.lines ++ declarations ++ back.flatMap HostItem.lines := by
  obtain ⟨item, back, rfl⟩ := List.exists_cons_of_ne_nil h
  have hfront : ∀ j, 0 ≤ j → j < 0 + front.length → j ≠ front.length := fun j _ hj => by omega
  -- the place is met at the first item of the back and at no other one
  have hback : ∀ j, front.length + 1 ≤ j → j < front.length + 1 + back.length → j ≠ front.length :=
    fun j hj _ => by omega
  rw [List.zipIdx_append, List.foldl_append, foldl_writeItem_away hfront, Nat.zero_add, List.zipIdx_cons,
    List.foldl_cons, writeItem_eq, if_pos rfl, foldl_writeItem_away hback, List.nil_append, List.flatMap_cons,
    List.append_assoc _ item.lines]

/-- **Writing item by item is writing the lines.** -/
theorem renderByPlace_eq (m : HostModule) (declarations appended : List String) :
    m.renderByPlace declarations appended = m.render declarations appended := by
  have hitems := m.declaring_append_undeclaring
  rw [render, Text.unlines, renderLines, renderByPlace, insertAt_eq]
  rw [← hitems]
  by_cases hback : m.undeclaring = []
  · -- no item is behind the last declaration, so none is met at the place
    have haway : ∀ j, 0 ≤ j → j < 0 + m.declaring.length → j ≠ m.declaring.length := fun j _ hj => by omega
    rw [hback, List.append_nil, if_pos rfl, foldl_writeItem_away haway]
    simp
  · have hlen : m.declaring.length ≠ (m.declaring ++ m.undeclaring).length := by
      have := List.length_pos_iff.2 hback
      rw [List.length_append]
      omega
    rw [if_neg hlen, foldl_writeItem hback]

theorem EndsDeclarations.render_eq {m : HostModule} (h : EndsDeclarations m.items front back)
    (declarations appended : List String) :
    m.render declarations appended =
      "\n".intercalate (front.flatMap HostItem.lines ++ declarations ++ back.flatMap HostItem.lines ++ appended) ++
        "\n" := by
  obtain ⟨rfl, rfl⟩ := h.unique
  rfl

/-- **Further declarations are written once, and nothing of a module is lost.**  They go behind the last declaration,
wherever it is, and in front of all items if there is none; the further text goes behind everything.  It makes no
difference that a place between two items is met on the way through them and a place behind the last is not. -/
theorem render_places_once (m : HostModule) (declarations appended : List String) :
    m.renderByPlace declarations appended = m.render declarations appended ∧
    (∃ front back, EndsDeclarations m.items front back ∧
      (∀ front' back', EndsDeclarations m.items front' back' → front' = front ∧ back' = back) ∧
      m.render declarations appended =
        "\n".intercalate (front.flatMap HostItem.lines ++ declarations ++ back.flatMap HostItem.lines ++ appended) ++
          "\n") ∧
    (∀ items line imports, m.items = items ++ [.declaration line imports] → m.render declarations appended =
      "\n".intercalate (m.items.flatMap HostItem.lines ++ declarations ++ appended) ++ "\n") ∧
    ((∀ item ∈ m.items, item.isDeclaration = false) → m.render declarations appended =
      "\n".intercalate (declarations ++ m.items.flatMap HostItem.lines ++ appended) ++ "\n") := by
  refine ⟨m.renderByPlace_eq declarations appended, ⟨m.declaring, m.undeclaring, m.endsDeclarations, ?_, rfl⟩, ?_, ?_⟩
  · intro front' back' h
    exact ⟨h.unique.1.symm, h.unique.2.symm⟩
  · intro items line imports hitems
    have hlast : EndsDeclarations m.items m.items [] := by
      refine ⟨(List.append_nil _).symm, fun item hi => ?_, fun item hi => by cases hi⟩
      rw [hitems, List.getLast?_concat] at hi
      cases hi
      rfl
    rw [hlast.render_eq, List.flatMap_nil, List.append_nil]
  · intro hnone
    have hfirst : EndsDeclarations m.items [] m.items := ⟨rfl, fun item hi => (by cases hi), hnone⟩
    rw [hfirst.render_eq, List.flatMap_nil, List.nil_append]

/-- The last item declares, behind a function; a module without items. -/
theorem render_places_once_behind_all :
    (HostModule.mk [.function ⟨"f", "function f() \x7b", [" g();"], none⟩, .declaration "var a = 1;" [⟨"a", "1"⟩]]).render
        ["var b = 2;"] ["// end"] =
      "function f() \x7b\n g();\n\x7d\nvar a = 1;\nvar b = 2;\n// end\n" ∧
    (HostModule.mk []).render ["var b = 2;"] ["// end"] = "var b = 2;\n// end\n" := by
  refine ⟨?_, ?_⟩
  · exact ((render_places_once _ _ _).2.2.1 [.function ⟨"f", "function f() \x7b", [" g();"], none⟩] "var a = 1;"
      [⟨"a", "1"⟩] rfl).trans (by decide)
  · exact ((render_places_once _ _ _).2.2.2 fun item hi => by cases hi).trans (by decide)

/-! ## Reading what was written -/

end HostModule

/-- An item as it is written, without its listing. -/
def HostItem.withoutListing : HostItem → HostItem
  | function f => function f.withoutListing
  | item => item

/-- A module as it is written, without the listings of its functions. -/
def HostModule.withoutListings (m : HostModule) : HostModule := ⟨m.items.map HostItem.withoutListing⟩

namespace HostItem

theorem lines_withoutListing (item : HostItem) : item.withoutListing.lines = item.lines := by cases item <;> rfl

theorem imports_withoutListing (item : HostItem) : item.withoutListing.imports = item.imports := by cases item <;> rfl

/-- **An item that was read reads back from its lines**, but for its listing. -/
theorem Reads.withoutListing {item : HostItem} {part : List String} (h : item.Reads part) :
    item.withoutListing.Reads item.lines := by
  cases h with
  | text hh hi => exact .text hh hi
  | declaration hh hi => exact .declaration hh hi
  | @function f closing rest hh hb hc hl =>
    have hclosing : ("\x7d" : String).toList = '\x7d' :: [] := rfl
    exact @Reads.function f.withoutListing _ _ hh hb hclosing rfl

end HostItem

namespace HostModule

theorem imports_withoutListings (m : HostModule) : m.withoutListings.imports = m.imports := by
  rw [imports, withoutListings, List.flatMap_map]
  simp only [HostItem.imports_withoutListing]
  rfl

theorem render_nil (m : HostModule) : m.render [] [] = Text.unlines (m.items.flatMap HostItem.lines) := by
  have hitems := congrArg (List.flatMap HostItem.lines) m.declaring_append_undeclaring
  rw [List.flatMap_append] at hitems
  rw [render, renderLines, List.append_nil, List.append_nil, hitems]

theorem flatMap_lines_withoutListings (m : HostModule) :
    m.withoutListings.items.flatMap HostItem.lines = m.items.flatMap HostItem.lines := by
  rw [withoutListings, List.flatMap_map]
  simp only [HostItem.lines_withoutListing]

theorem Reads.items_ne_nil {items : List HostItem} {ls : List String} (h : Reads items ls) (hne : ls ≠ []) :
    items ≠ [] := by
  cases h with
  | nil => exact absurd rfl hne
  | cons => exact List.cons_ne_nil _ _

theorem parse_render_of_ne {text : String} {m : HostModule} (hr : '\r' ∉ text.toList) (hne : text ≠ "")
    (hm : parse text = .ok m) : parse (m.render [] []) = .ok m.withoutListings := by
  have hreads := parse_eq_ok_iff.1 hm
  have hlines := Text.oneLine_of_mem_lines hr
  have hitems : ∀ item ∈ m.withoutListings.items, item.Reads item.lines := by
    intro item hi
    obtain ⟨old, hold, rfl⟩ := List.mem_map.1 hi
    obtain ⟨part, hpart, -⟩ := hreads.of_mem hold
    rw [HostItem.lines_withoutListing]
    exact hpart.withoutListing
  have hone : ∀ l ∈ m.items.flatMap HostItem.lines, Text.OneLine l := by
    intro l hl
    obtain ⟨item, hi, hl⟩ := List.mem_flatMap.1 hl
    obtain ⟨part, hpart, hsub⟩ := hreads.of_mem hi
    exact oneLine_lines_of_reads hpart (fun l hl => hlines l (hsub l hl)) l hl
  have hsome : m.items.flatMap HostItem.lines ≠ [] := by
    obtain ⟨item, items, hcons⟩ := List.exists_cons_of_ne_nil (hreads.items_ne_nil (Text.lines_ne_nil hne))
    rw [hcons, List.flatMap_cons]
    cases item <;> exact List.cons_ne_nil _ _
  rw [← m.flatMap_lines_withoutListings] at hsome hone
  rw [render_nil, ← m.flatMap_lines_withoutListings]
  exact parse_unlines hsome hitems hone

/-- **A module is read back from what is written of it**, but for the listings of its functions, and what is written of
it again is the same.  Of an empty text one empty line is written, which stays one. -/
theorem parse_render {text : String} {m : HostModule} (hr : '\r' ∉ text.toList) (hm : parse text = .ok m) :
    (text ≠ "" → parse (m.render [] []) = .ok m.withoutListings ∧ m.withoutListings.imports = m.imports) ∧
    ∃ m', parse (m.render [] []) = .ok m' ∧ m'.render [] [] = m.render [] [] := by
  refine ⟨fun hne => ⟨parse_render_of_ne hr hne hm, m.imports_withoutListings⟩, ?_⟩
  by_cases hne : text = ""
  · subst hne
    have hempty : parse "" = .ok ⟨[]⟩ := rfl
    obtain rfl : m = ⟨[]⟩ := Except.ok.inj (hm.symm.trans hempty)
    have hone : parse "\n" = .ok ⟨[.text ""]⟩ := rfl
    exact ⟨⟨[.text ""]⟩, hone, rfl⟩
  · refine ⟨m.withoutListings, parse_render_of_ne hr hne hm, ?_⟩
    rw [render_nil, render_nil, m.flatMap_lines_withoutListings]

theorem parse_render_lookalikes :
    '\r' ∉ ("\x7d\nfunction f() \x7b\nvar b = 1;\nfunction g() \x7b\x7d\n\x7d // [1] ").toList ∧
      "\x7d\nfunction f() \x7b\nvar b = 1;\nfunction g() \x7b\x7d\n\x7d // [1] " ≠ "" ∧
      ∃ m, parse "\x7d\nfunction f() \x7b\nvar b = 1;\nfunction g() \x7b\x7d\n\x7d // [1] " = .ok m ∧
        parse (m.render [] []) = .ok m.withoutListings := by
  have hr : '\r' ∉ ("\x7d\nfunction f() \x7b\nvar b = 1;\nfunction g() \x7b\x7d\n\x7d // [1] ").toList := by
    decide +kernel
  have hne : "\x7d\nfunction f() \x7b\nvar b = 1;\nfunction g() \x7b\x7d\n\x7d // [1] " ≠ "" := by decide
  have hok : (parse "\x7d\nfunction f() \x7b\nvar b = 1;\nfunction g() \x7b\x7d\n\x7d // [1] ").isOk = true := by
    decide +kernel
  obtain ⟨m, hm⟩ := exists_ok_of_isOk hok
  exact ⟨hr, hne, m, hm, ((parse_render hr hm).1 hne).1⟩

end HostModule
end Wordcode
