import Mathlib.Logic.Function.Basic
import Wordcode.Proofs.FirstSeen
import Wordcode.Symbols
/-!
# Proofs.Symbols — the table of call targets numbers their names

A table is made exactly if fewer than 256 names are seen, and then a name's id is its place among them, as they are
first seen (`build_numbers_firstSeen`).  A map that is filled name by name has the same ids (`idMap_eq`).
-/
namespace Wordcode.SymbolTable

/-- The names that are to be call targets, as often as they are seen: those of the callable imports, then those of the
functions, without the runtime helpers. -/
def candidates (imports : List Import) (functions : List String) : List String :=
  ((imports.filter Import.isCallable).map Import.name ++ functions).filter (· ∉ denylist)

/-- The map from names to ids, filled name by name; the last id put under a name counts. -/
def idMap (names : List String) : String → Option UInt8 :=
  names.zipIdx.foldl (fun ids entry => Function.update ids entry.1 (some entry.2.toUInt8)) fun _ => none

/-- **The table numbers the names**: the id of a name is its place, and no place is too far back for an id. -/
structure Numbers (t : SymbolTable) (names : List String) : Prop where
  size_eq : t.size = names.length
  nameOf?_eq : ∀ id, t.nameOf? id = names[id.toNat]?
  idOf?_iff : ∀ name id, t.idOf? name = some id ↔ names[id.toNat]? = some name
  inverse : ∀ name id, t.idOf? name = some id ↔ t.nameOf? id = some name
  exists_id : ∀ i name, names[i]? = some name → ∃ id, t.idOf? name = some id ∧ id.toNat = i
  idMap_eq : t.idOf? = idMap names
  entries_eq : (t.entries.map fun entry => (entry.2, entry.1.toNat)) = names.zipIdx

theorem callTargets_eq (imports : List Import) (functions : List String) :
    callTargets imports functions = (candidates imports functions).eraseDups := by
  have hdenied : (fun name : String => !isDenied name) = fun name => decide (name ∉ denylist) := by
    funext name
    simp [isDenied]
  rw [callTargets, firstSeen, hdenied]
  rfl

theorem idMap_concat (names : List String) (name : String) :
    idMap (names ++ [name]) = Function.update (idMap names) name (some names.length.toUInt8) := by
  simp [idMap, List.zipIdx_append]

/-- **The map has for a name the id of its place**, if the names are distinct. -/
theorem idMap_eq {names : List String} (h : names.Nodup) (name : String) :
    idMap names name = (names.idxOf? name).map Nat.toUInt8 := by
  -- from the end of the names: the last one is put under its own name alone
  induction names using List.reverseRecOn with
  | nil => rfl
  | append_singleton names last ih =>
    obtain ⟨hnames, -, hlast⟩ := List.nodup_append.1 h
    have hcut : (names ++ [last]).idxOf? name = (names.idxOf? name).or ([last].idxOf? name |>.map (· + names.length)) :=
      List.findIdx?_append
    rw [idMap_concat, hcut]
    by_cases hname : name = last
    · subst hname
      have hnew : names.idxOf? name = none :=
        List.idxOf?_eq_none_iff.2 fun hm => hlast name hm name (List.mem_singleton_self _) rfl
      rw [Function.update_self, hnew]
      simp
    · rw [Function.update_of_ne hname, ih hnames]
      simp [Ne.symm hname]

/-- A place in a table is not cut when it is made an id. -/
theorem toNat_toUInt8 (t : SymbolTable) {i : Nat} (hi : i < t.names.length) : i.toUInt8.toNat = i := by
  have hsmall := t.small
  simp
  omega

/-- **A table that holds the names numbers them.** -/
theorem numbers (t : SymbolTable) : t.Numbers t.names where
  size_eq := rfl
  nameOf?_eq := fun _ => rfl
  idOf?_iff := t.idOf?_eq_some_iff
  inverse := t.idOf?_eq_some_iff
  exists_id := by
    intro i name hname
    have hi := t.toNat_toUInt8 (List.getElem?_eq_some_iff.1 hname).1
    refine ⟨i.toUInt8, (t.idOf?_eq_some_iff name _).2 ?_, hi⟩
    rw [nameOf?, hi]
    exact hname
  idMap_eq := by
    funext name
    exact (idMap_eq t.nodup name).symm
  entries_eq := by
    rw [entries, List.mapIdx_eq_zipIdx_map, List.map_map]
    refine (List.map_congr_left fun entry hentry => ?_).trans (List.map_id _)
    obtain ⟨name, i⟩ := entry
    obtain ⟨hlt, -⟩ := List.getElem?_eq_some_iff.1 (List.mem_zipIdx_iff_getElem?.1 hentry)
    exact Prod.ext rfl (t.toNat_toUInt8 hlt)

/-- **When a table is made, and which ids it gives.**  With `names` what is left of the candidates when only first
occurrences stay, and nothing else being that: fewer than 256 make a table that numbers them; more are too many. -/
theorem build_numbers_firstSeen (imports : List Import) (functions : List String) :
    ∃ names, (∀ kept, FirstSeen (candidates imports functions) kept ↔ kept = names) ∧
      (256 ≤ names.length → build imports functions = .error (.symbolSpaceExhausted names.length)) ∧
      (names.length < 256 → ∃ t, build imports functions = .ok t ∧ t.Numbers names) := by
  have hfirst := firstSeen_eraseDups (candidates imports functions)
  rw [← callTargets_eq] at hfirst
  refine ⟨callTargets imports functions, fun kept => ⟨fun h => h.unique hfirst, fun h => h ▸ hfirst⟩, ?_, ?_⟩
  · intro hle
    exact dif_neg (Nat.not_lt.2 hle)
  · intro hlt
    exact ⟨⟨callTargets imports functions, nodup_eraseDups _, hlt⟩, dif_pos hlt, numbers _⟩

end Wordcode.SymbolTable
