import Wordcode.Proofs.Assembly.Failures
import Wordcode.Proofs.Assembly.Indices
/-!
# Proofs.Assembly.Table — a registry as a table by ascending id

The lists that are made on demand stand in a table with a row for each target that was asked for.  A new row goes to
its place by the target's id, so the rows ascend after any registrations (`ascending_registerAll`).  Such a table is
known by the list of each target (`Ascending.ext`), and registering does to the lists in it what it does to lists on
demand (`lists_register`): the rows are the groups of the registry (`registerAll_groups`).
-/
namespace Wordcode
namespace Registry

/-- The targets that were asked for, each with the list of its signatures. -/
abbrev Table := List (UInt8 × List Signature)

namespace Table

/-- A list for a target, in the place of the one that it had, or in a new row. -/
def insert (target : UInt8) (known : List Signature) : Table → Table
  | [] => [(target, known)]
  | row :: rows =>
    if target < row.1 then (target, known) :: row :: rows
    else if target = row.1 then (target, known) :: rows
    else row :: insert target known rows

/-- Registering in a table: the target's row is there, made if need be, before the signature is looked for in it. -/
def register (t : Table) (target : UInt8) (s : Signature) : Option UInt8 × Table :=
  let known := (t.lookup target).getD []
  match known.idxOf? s with
  | some index => (some index.toUInt8, insert target known t)
  | none =>
    if known.length < capacity then (some known.length.toUInt8, insert target (known ++ [s]) t)
    else (none, insert target known t)

def registerAll (t : Table) (entries : List (UInt8 × Signature)) : Table :=
  entries.foldl (fun t entry => (register t entry.1 entry.2).2) t

/-- The rows stand by ascending id. -/
def Ascending (t : Table) : Prop := t.Pairwise fun row row' => row.1 < row'.1

/-- The list of each target that has a row. -/
def lists (t : Table) : Lists := fun target => t.lookup target

variable {t t' : Table}

/-! ## Rows by ascending id -/

theorem mem_of_mem_insert {target : UInt8} {known : List Signature} {row : UInt8 × List Signature}
    (h : row ∈ insert target known t) : row = (target, known) ∨ row ∈ t := by
  induction t with
  | nil => exact .inl (List.mem_singleton.1 h)
  | cons first rows ih =>
    unfold insert at h
    split at h
    · exact List.mem_cons.1 h
    · split at h
      · exact (List.mem_cons.1 h).imp_right (List.mem_cons_of_mem first)
      · rcases List.mem_cons.1 h with rfl | h
        · exact .inr List.mem_cons_self
        · exact (ih h).imp_right (List.mem_cons_of_mem first)

/-- **A new row goes to its place.** -/
theorem Ascending.insert (h : Ascending t) (target : UInt8) (known : List Signature) :
    Ascending (insert target known t) := by
  induction t with
  | nil => exact List.pairwise_singleton _ _
  | cons first rows ih =>
    obtain ⟨hfirst, hrows⟩ := List.pairwise_cons.1 h
    unfold Table.insert
    by_cases hlt : target < first.1
    · rw [if_pos hlt]
      refine List.pairwise_cons.2 ⟨fun row hrow => ?_, h⟩
      rcases List.mem_cons.1 hrow with rfl | hrow
      · exact hlt
      · exact UInt8.lt_trans hlt (hfirst row hrow)
    rw [if_neg hlt]
    by_cases heq : target = first.1
    · subst heq
      rw [if_pos rfl]
      exact List.pairwise_cons.2 ⟨hfirst, hrows⟩
    · rw [if_neg heq]
      refine List.pairwise_cons.2 ⟨fun row hrow => ?_, ih hrows⟩
      rcases mem_of_mem_insert hrow with rfl | hrow
      · exact UInt8.lt_of_le_of_ne (UInt8.not_lt.1 hlt) (Ne.symm heq)
      · exact hfirst row hrow

theorem exists_register_eq (t : Table) (target : UInt8) (s : Signature) :
    ∃ known, (register t target s).2 = insert target known t := by
  unfold register
  simp only
  cases ((t.lookup target).getD []).idxOf? s with
  | some index => exact ⟨_, rfl⟩
  | none =>
    simp only
    split
    · exact ⟨_, rfl⟩
    · exact ⟨_, rfl⟩

theorem Ascending.register (h : Ascending t) (target : UInt8) (s : Signature) : Ascending (register t target s).2 := by
  obtain ⟨known, hknown⟩ := exists_register_eq t target s
  rw [hknown]
  exact h.insert target known

theorem ascending_registerAll (h : Ascending t) (entries : List (UInt8 × Signature)) :
    Ascending (registerAll t entries) := by
  induction entries generalizing t with
  | nil => exact h
  | cons entry more ih => exact ih (h.register entry.1 entry.2)

theorem ascending_groups (r : Registry) : Ascending r.groups :=
  (pairwise_groups r).imp fun {_ _} hlt => UInt8.lt_iff_toNat_lt.2 hlt

theorem Ascending.mem_iff (h : Ascending t) {target : UInt8} {known : List Signature} :
    (target, known) ∈ t ↔ t.lists target = some known := by
  unfold lists
  rw [List.lookup_eq_some_iff]
  constructor
  · intro hmem
    obtain ⟨front, behind, rfl⟩ := List.append_of_mem hmem
    refine ⟨front, behind, rfl, fun row hrow => ?_⟩
    have hlt : row.1 < target := (List.pairwise_append.1 h).2.2 row hrow (target, known) List.mem_cons_self
    exact bne_iff_ne.2 fun heq => UInt8.lt_irrefl target (heq ▸ hlt)
  · rintro ⟨front, behind, rfl, -⟩
    exact List.mem_append_right front List.mem_cons_self

theorem Ascending.nodup (h : Ascending t) : t.Nodup :=
  h.imp fun {row row'} hlt heq => by
    rw [heq] at hlt
    exact UInt8.lt_irrefl row'.1 hlt

/-- **A table is known by its lists.** -/
theorem Ascending.ext (h : Ascending t) (h' : Ascending t') (heq : t.lists = t'.lists) : t = t' := by
  have hperm : t.Perm t' := (List.perm_ext_iff_of_nodup h.nodup h'.nodup).2 fun ⟨target, known⟩ => by
    rw [h.mem_iff, h'.mem_iff, heq]
  exact hperm.eq_of_pairwise (fun _ _ _ _ hlt hlt' => absurd hlt' (UInt8.lt_asymm hlt)) h h'

/-! ## Rows and lists on demand -/

theorem lists_cons (row : UInt8 × List Signature) (rows : Table) :
    lists (row :: rows) = Function.update (lists rows) row.1 (some row.2) := by
  funext other
  unfold lists
  by_cases h : other = row.1
  · rw [h, Function.update_self]
    exact List.lookup_cons_self
  · rw [Function.update_of_ne h, List.lookup_cons, beq_false_of_ne h]

theorem lists_insert (t : Table) (target : UInt8) (known : List Signature) :
    (insert target known t).lists = Function.update t.lists target (some known) := by
  induction t with
  | nil => exact lists_cons (target, known) []
  | cons first rows ih =>
    unfold insert
    split
    · exact lists_cons (target, known) (first :: rows)
    · split
      · next heq =>
        rw [lists_cons, lists_cons, heq, Function.update_idem]
      · next hne =>
        rw [lists_cons, ih, lists_cons, Function.update_comm (Ne.symm hne)]

/-- **Registering in a table does to its lists what registering does to lists on demand.** -/
theorem lists_register (t : Table) (target : UInt8) (s : Signature) :
    Lists.register t.lists target s = ((t.register target s).1, (t.register target s).2.lists) := by
  have hknown : t.lists target = t.lookup target := rfl
  unfold Lists.register register
  simp only [hknown]
  cases ((t.lookup target).getD []).idxOf? s with
  | some index => simp only [lists_insert]
  | none =>
    simp only
    split
    · rw [lists_insert]
    · rw [lists_insert]

theorem lists_groups (r : Registry) : lists r.groups = r.lists := by
  funext target
  refine Option.ext fun known => ?_
  rw [← (ascending_groups r).mem_iff, mem_groups_iff, Registry.lists]
  by_cases h : r.signatures target = []
  · rw [if_pos h, h]
    simp
  · rw [if_neg h, Option.some.injEq]
    constructor
    · rintro ⟨rfl, -⟩
      rfl
    · rintro rfl
      exact ⟨rfl, h⟩

/-- **A table of the groups answers as the registry does, and stays one.** -/
theorem register_groups (r : Registry) (target : UInt8) (s : Signature) :
    register r.groups target s = ((r.register target s).1, (r.register target s).2.groups) := by
  have hlists := lists_register r.groups target s
  rw [lists_groups, Registry.lists_register] at hlists
  obtain ⟨hanswer, hrows⟩ := Prod.mk.inj hlists
  refine Prod.ext hanswer.symm (((ascending_groups r).register target s).ext (ascending_groups _) ?_)
  rw [← hrows, lists_groups]

theorem groups_empty : empty.groups = [] := by
  refine List.filter_eq_nil_iff.2 fun group hgroup => ?_
  obtain ⟨n, -, rfl⟩ := List.mem_map.1 hgroup
  simp [empty, signatures]

theorem registerAll_groups (r : Registry) (entries : List (UInt8 × Signature)) :
    registerAll r.groups entries = (r.registerAll entries).groups :=
  List.foldl_hom groups fun r entry => by rw [register_groups]

end Table
end Registry
end Wordcode
