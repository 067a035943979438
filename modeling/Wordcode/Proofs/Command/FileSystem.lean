import Mathlib.Tactic.SplitIfs
import Wordcode.Command.FileSystem
import Wordcode.Proofs.Words
/-!
# Proofs.Command.FileSystem — what writing changes

A path leads to a place through directories only (`Leads`, `place?_destination_iff`), and reading succeeds exactly on
files (`read_eq_bytes_iff`).  Writing puts a file there and leaves every other place as it is (`node?_put_of_ne`), so
that paths that led to a file or to a vacant place lead there as before (`place?_destination_put`).  A path and the path
of its memory lead to two places, so what is written to both of them is in both of them (`write?_write?`).
-/
namespace Wordcode.Command

/-- The place of a file that is there or can be made. -/
def Destination.place? : Destination → Option Place
  | .file place _ | .vacant place => some place
  | _ => none

namespace FileSystem

theorem node?_put_self (fs : FileSystem) {place : Place} (h : place ≠ []) (node : Node) :
    (fs.put place node).node? place = some node := by
  have hnone : (fs.entries.filter fun entry => entry.1 != place).find? (fun entry => entry.1 == place) = none := by
    simp [List.find?_eq_none]
  rw [node?, if_neg h, put, List.find?_append, hnone]
  simp

theorem node?_put_of_ne (fs : FileSystem) {place other : Place} (h : other ≠ place) (node : Node) :
    (fs.put place node).node? other = fs.node? other := by
  have hkeep : (fs.entries.filter fun entry => entry.1 != place).find? (fun entry => entry.1 == other) =
      fs.entries.find? fun entry => entry.1 == other := by
    rw [List.find?_filter]
    congr 1
    funext entry
    by_cases he : entry.1 = other <;> simp [he, h]
  unfold node? put
  rw [List.find?_append, hkeep]
  simp [Ne.symm h]

/-! ## Where paths lead -/

/-- The part of a path is a name, and not too long. -/
structure IsName (part : String) : Prop where
  not_skip : ¬ (part = "" ∨ part = ".")
  not_up : part ≠ ".."
  short : ¬ maxName < part.utf8ByteSize

theorem part_cases (part : String) :
    (part = "" ∨ part = ".") ∨ part = ".." ∨ maxName < part.utf8ByteSize ∨ IsName part := by
  by_cases hskip : part = "" ∨ part = "."
  · exact .inl hskip
  by_cases hup : part = ".."
  · exact .inr (.inl hup)
  by_cases hlong : maxName < part.utf8ByteSize
  · exact .inr (.inr (.inl hlong))
  · exact .inr (.inr (.inr ⟨hskip, hup, hlong⟩))

/-- **The parts of a path lead from a directory to a place**: through directories, and then to what is no directory. -/
inductive Leads (fs : FileSystem) : Place → List String → Place → Prop
  | skip {dir place : Place} {part : String} {more : List String} (hp : part = "" ∨ part = ".")
      (h : Leads fs dir more place) : Leads fs dir (part :: more) place
  | up {dir place : Place} {more : List String} (h : Leads fs dir.dropLast more place) :
      Leads fs dir (".." :: more) place
  | down {dir place : Place} {part : String} {more : List String} (hp : IsName part)
      (hnode : fs.node? (dir ++ [part]) = some .directory) (h : Leads fs (dir ++ [part]) more place) :
      Leads fs dir (part :: more) place
  | here {dir : Place} {part : String} (hp : IsName part) (hnode : fs.node? (dir ++ [part]) ≠ some .directory) :
      Leads fs dir [part] (dir ++ [part])

/-- What a path that leads to a place leads to. -/
def leaf (fs : FileSystem) (place : Place) : Destination :=
  match fs.node? place with
  | some .directory => .directory
  | some (.file data) => .file place data
  | none => .vacant place

theorem follow_skip (fs : FileSystem) (dir : Place) {part : String} (h : part = "" ∨ part = ".") (more : List String) :
    fs.follow dir (part :: more) = fs.follow dir more := by
  rw [follow.eq_def]
  exact if_pos h

theorem follow_up (fs : FileSystem) (dir : Place) (more : List String) :
    fs.follow dir (".." :: more) = fs.follow dir.dropLast more := by
  rw [follow.eq_def]
  exact (if_neg (by decide)).trans (if_pos rfl)

theorem follow_long (fs : FileSystem) (dir : Place) {part : String} (h : maxName < part.utf8ByteSize)
    (more : List String) : fs.follow dir (part :: more) = .impossible := by
  have hskip : ¬ (part = "" ∨ part = ".") := by
    rintro (rfl | rfl) <;> exact absurd h (by decide)
  have hup : part ≠ ".." := by
    rintro rfl
    exact absurd h (by decide)
  rw [follow.eq_def]
  exact (if_neg hskip).trans ((if_neg hup).trans (if_pos h))

theorem follow_name (fs : FileSystem) (dir : Place) {part : String} (h : IsName part) (more : List String) :
    fs.follow dir (part :: more) =
      match fs.node? (dir ++ [part]), more with
      | some .directory, _ => fs.follow (dir ++ [part]) more
      | some (.file data), [] => .file (dir ++ [part]) data
      | some (.file _), _ :: _ => .behindFile
      | none, [] => .vacant (dir ++ [part])
      | none, _ :: _ => .nowhere := by
  rw [follow.eq_def]
  exact (if_neg h.not_skip).trans ((if_neg h.not_up).trans (if_neg h.short))

theorem follow_of_leads {fs : FileSystem} {dir place : Place} {parts : List String} (h : fs.Leads dir parts place) :
    fs.follow dir parts = fs.leaf place := by
  induction h with
  | skip hp h ih => rw [follow_skip fs _ hp, ih]
  | up h ih => rw [follow_up, ih]
  | down hp hnode h ih => rw [follow_name fs _ hp, hnode, ih]
  | @here dir part hp hnode =>
    rw [follow_name fs _ hp, leaf]
    rcases hn : fs.node? (dir ++ [part]) with _ | data | _
    · rfl
    · rfl
    · exact absurd hn hnode

theorem leads_of_follow {fs : FileSystem} : ∀ {parts : List String} {dir place : Place},
    (fs.follow dir parts).place? = some place → fs.Leads dir parts place
  | part :: more, dir, place, h => by
    rcases part_cases part with hskip | rfl | hlong | hname
    · rw [follow_skip fs dir hskip] at h
      exact .skip hskip (leads_of_follow h)
    · rw [follow_up] at h
      exact .up (leads_of_follow h)
    · rw [follow_long fs dir hlong] at h
      cases h
    · rw [follow_name fs dir hname] at h
      rcases hnode : fs.node? (dir ++ [part]) with _ | data | _ <;> rw [hnode] at h
      · cases more <;> cases h
        exact .here hname (by rw [hnode]; simp)
      · cases more <;> cases h
        exact .here hname (by rw [hnode]; simp)
      · exact .down hname hnode (leads_of_follow h)

namespace Leads

variable {fs : FileSystem} {dir place : Place} {parts : List String}

theorem node?_ne (h : fs.Leads dir parts place) : fs.node? place ≠ some .directory := by
  induction h with
  | skip _ _ ih | up _ ih | down _ _ _ ih => exact ih
  | here _ hnode => exact hnode

/-- A path leads to a place by the name of the place. -/
theorem getLast?_eq (h : fs.Leads dir parts place) : ∃ name, place.getLast? = some name ∧ parts.getLast? = some name := by
  induction h with
  | skip _ _ ih | up _ ih | down _ _ _ ih =>
    obtain ⟨name, hplace, hparts⟩ := ih
    exact ⟨name, hplace, by rw [List.getLast?_cons, hparts]; rfl⟩
  | @here dir part => exact ⟨part, List.getLast?_concat, rfl⟩

theorem ne_nil (h : fs.Leads dir parts place) : place ≠ [] := by
  obtain ⟨name, hname, -⟩ := h.getLast?_eq
  rintro rfl
  cases hname

/-- **A file where no directory was leaves paths to places alone**: they go through directories only. -/
theorem put (h : fs.Leads dir parts place) {other : Place} (ho : fs.node? other ≠ some .directory) (data : List UInt8) :
    (fs.put other (.file data)).Leads dir parts place := by
  induction h with
  | skip hp _ ih => exact .skip hp ih
  | up _ ih => exact .up ih
  | @down dir place part more hp hnode _ ih =>
    have hne : dir ++ [part] ≠ other := by
      rintro rfl
      exact ho hnode
    exact .down hp (by rw [node?_put_of_ne fs hne, hnode]) ih
  | @here dir part hp hnode =>
    refine .here hp ?_
    by_cases heq : dir ++ [part] = other
    · subst heq
      rw [node?_put_self fs (by simp)]
      simp
    · rw [node?_put_of_ne fs heq]
      exact hnode

end Leads

theorem destination_eq (fs : FileSystem) {path : String} (h : isPath path = true) (hne : path ≠ "") :
    fs.destination path = fs.follow [] (fs.route path) := by
  unfold destination
  rw [h, if_neg (by simp), if_neg hne]

/-- **A path leads to a place exactly if its parts lead there from the root**, those of the working directory in front
of a relative path. -/
theorem place?_destination_iff {fs : FileSystem} {path : String} {place : Place} :
    (fs.destination path).place? = some place ↔ isPath path = true ∧ path ≠ "" ∧ fs.Leads [] (fs.route path) place := by
  constructor
  · intro h
    have hpath : isPath path = true := by
      rcases hp : isPath path
      · rw [destination, hp] at h
        cases h
      · rfl
    have hne : path ≠ "" := by
      rintro rfl
      cases h
    rw [destination_eq fs hpath hne] at h
    exact ⟨hpath, hne, leads_of_follow h⟩
  · rintro ⟨hpath, hne, h⟩
    rw [destination_eq fs hpath hne, follow_of_leads h, leaf]
    rcases hnode : fs.node? place with _ | data | _
    · rfl
    · rfl
    · exact absurd hnode h.node?_ne

section
variable {fs : FileSystem} {path : String} {place : Place}

theorem destination_eq_leaf (h : (fs.destination path).place? = some place) : fs.destination path = fs.leaf place := by
  obtain ⟨hpath, hne, hlead⟩ := place?_destination_iff.1 h
  rw [destination_eq fs hpath hne, follow_of_leads hlead]

theorem node?_ne_of_place? (h : (fs.destination path).place? = some place) : fs.node? place ≠ some .directory :=
  (place?_destination_iff.1 h).2.2.node?_ne

theorem ne_nil_of_place? (h : (fs.destination path).place? = some place) : place ≠ [] :=
  (place?_destination_iff.1 h).2.2.ne_nil

theorem place?_destination_put (h : (fs.destination path).place? = some place) {other : Place}
    (ho : fs.node? other ≠ some .directory) (data : List UInt8) :
    ((fs.put other (.file data)).destination path).place? = some place := by
  obtain ⟨hpath, hne, hlead⟩ := place?_destination_iff.1 h
  exact place?_destination_iff.2 ⟨hpath, hne, hlead.put ho data⟩

end

/-- **Reading succeeds exactly on files.** -/
theorem read_eq_bytes_iff {fs : FileSystem} {path : String} {data : List UInt8} :
    fs.read path = .bytes data ↔
      ∃ place, (fs.destination path).place? = some place ∧ fs.node? place = some (.file data) := by
  constructor
  · intro h
    unfold read at h
    rcases hd : fs.destination path with ⟨place, old⟩ | _ | place | _ | _ | _ <;> rw [hd] at h <;> cases h
    refine ⟨place, rfl, ?_⟩
    have hleaf : Destination.file place data = fs.leaf place := hd ▸ destination_eq_leaf (by rw [hd]; rfl)
    unfold leaf at hleaf
    rcases hnode : fs.node? place with _ | data' | _ <;> rw [hnode] at hleaf <;> cases hleaf
    rfl
  · rintro ⟨place, hplace, hnode⟩
    rw [read, destination_eq_leaf hplace, leaf, hnode]

/-! ## Writing -/

/-- **Writing fills a place**, if it can be done at all. -/
theorem write?_eq_some {fs fs' : FileSystem} {path : String} {data : List UInt8} (h : fs.write? path data = some fs') :
    ∃ place, (fs.destination path).place? = some place ∧ fs' = fs.put place (.file data) := by
  unfold write? at h
  rcases hd : fs.destination path with ⟨place, old⟩ | _ | place | _ | _ | _ <;> rw [hd] at h
  · exact ⟨place, rfl, (Option.some.inj (Option.ite_none_left_eq_some.1 h).2).symm⟩
  · cases h
  · exact ⟨place, rfl, (Option.some.inj (Option.ite_none_left_eq_some.1 h).2).symm⟩
  · cases h
  · cases h
  · cases h

/-! ## A path and the path of its memory -/

theorem exists_parts_memoryPath (path : String) :
    ∃ front last, parts path = front ++ [last] ∧ parts (memoryPath path) = front ++ [last ++ ".mem"] := by
  obtain ⟨front, last, hpath, hmemory⟩ :=
    Text.exists_cutAll_append (show '/' ∉ ".mem".toList by decide) path.toList
  refine ⟨front.map String.ofList, String.ofList last, ?_, ?_⟩
  · rw [parts, hpath, List.map_append]
    rfl
  · rw [parts, memoryPath, String.toList_append, hmemory, List.map_append, List.map_singleton, String.ofList_append,
      String.ofList_toList]

theorem head?_memoryPath (path : String) :
    (memoryPath path).toList.head? = some '/' ↔ path.toList.head? = some '/' := by
  rw [memoryPath, String.toList_append]
  cases path.toList <;> simp

/-- The path of a memory parts from the path it belongs to at the last name. -/
theorem exists_route_memoryPath (fs : FileSystem) (path : String) :
    ∃ front last, fs.route path = front ++ [last] ∧ fs.route (memoryPath path) = front ++ [last ++ ".mem"] := by
  obtain ⟨front, last, hpath, hmemory⟩ := exists_parts_memoryPath path
  unfold route
  simp only [head?_memoryPath, hpath, hmemory]
  split_ifs
  · exact ⟨front, last, rfl, rfl⟩
  · exact ⟨fs.cwd ++ front, last, by rw [List.append_assoc], by rw [List.append_assoc]⟩

theorem place_ne_of_memoryPath {fs fs' : FileSystem} {path : String} {place place' : Place}
    (h : (fs.destination path).place? = some place) (h' : (fs'.destination (memoryPath path)).place? = some place')
    (hcwd : fs'.cwd = fs.cwd) : place ≠ place' := by
  rintro rfl
  obtain ⟨front, last, hpath, hmemory⟩ := fs.exists_route_memoryPath path
  have hroute : fs'.route (memoryPath path) = fs.route (memoryPath path) := by
    unfold route
    rw [hcwd]
  -- the last names of the two paths are the names of the two places
  obtain ⟨name, hname, hlast⟩ := (place?_destination_iff.1 h).2.2.getLast?_eq
  obtain ⟨name', hname', hlast'⟩ := (place?_destination_iff.1 h').2.2.getLast?_eq
  rw [hpath, List.getLast?_concat] at hlast
  rw [hroute, hmemory, List.getLast?_concat] at hlast'
  rw [hname, ← hlast, ← hlast'] at hname'
  have hlen := congrArg String.length (Option.some.inj hname')
  simp at hlen

/-- **What is written to a path and then to the path of its memory is in two places**, and nothing else has changed. -/
theorem write?_write? {fs fs₁ fs₂ : FileSystem} {path : String} {data memory : List UInt8}
    (h₁ : fs.write? path data = some fs₁) (h₂ : fs₁.write? (memoryPath path) memory = some fs₂) :
    ∃ place place', place ≠ place' ∧ fs₂.destination path = .file place data ∧
      fs₂.destination (memoryPath path) = .file place' memory ∧
      ∀ other, other ≠ place → other ≠ place' → fs₂.node? other = fs.node? other := by
  obtain ⟨place, hp, rfl⟩ := write?_eq_some h₁
  obtain ⟨place', hq, rfl⟩ := write?_eq_some h₂
  have hne : place ≠ place' := place_ne_of_memoryPath hp hq rfl
  have hp₁ := place?_destination_put hp (node?_ne_of_place? hp) data
  have hp₂ := place?_destination_put hp₁ (node?_ne_of_place? hq) memory
  have hq₂ := place?_destination_put hq (node?_ne_of_place? hq) memory
  refine ⟨place, place', hne, ?_, ?_, ?_⟩
  · rw [destination_eq_leaf hp₂, leaf, node?_put_of_ne _ hne, node?_put_self fs (ne_nil_of_place? hp)]
  · rw [destination_eq_leaf hq₂, leaf, node?_put_self _ (ne_nil_of_place? hq)]
  · intro other h h'
    rw [node?_put_of_ne _ h', node?_put_of_ne fs h]

end FileSystem
end Wordcode.Command
