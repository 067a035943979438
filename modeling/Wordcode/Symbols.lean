import Wordcode.Fault
import Wordcode.Host.Import
/-!
# Symbols — one byte for every call target

Ids count the call targets from zero in the order they are first seen: the callable imports, then the module's own
functions, without the runtime helpers that must stay native.  A table never holds a name twice and its ids fit in a
byte, so a name and its id determine each other (`idOf?_eq_some_iff`).
-/
namespace Wordcode

/-- The names of call targets; a name's place is its id. -/
structure SymbolTable where
  names : List String
  nodup : names.Nodup
  small : names.length < 256
deriving Repr

namespace SymbolTable

/-- One more than the most symbols a table holds. -/
def capacity : Nat := 256

/-- Runtime helpers that are never interpreted. -/
def denylist : List String :=
  ["_memcpy", "_memset", "copyTempDouble", "copyTempFloat", "_strlen", "stackAlloc", "setThrew", "stackRestore",
   "setTempRet0", "getTempRet0", "stackSave", "runPostSets"]

/-- The name is a runtime helper's. -/
def isDenied (name : String) : Bool := denylist.contains name

/-- The names of a list where they are seen first. -/
def firstSeen (names : List String) : List String := names.eraseDups

theorem nodup_eraseDups {α : Type} [BEq α] [LawfulBEq α] (l : List α) : l.eraseDups.Nodup := by
  match l with
  | [] => simp
  | a :: as =>
    rw [List.eraseDups_cons, List.nodup_cons]
    refine ⟨by simp [List.mem_eraseDups], nodup_eraseDups _⟩
termination_by l.length
decreasing_by exact Nat.lt_succ_of_le (List.length_filter_le _ as)

/-- The names that are call targets, in the order of their ids. -/
def callTargets (imports : List Import) (functions : List String) : List String :=
  firstSeen (((imports.filter Import.isCallable).map Import.name ++ functions).filter fun name => !isDenied name)

/-- The table of a module's call targets. -/
def build (imports : List Import) (functions : List String) : Except Fault SymbolTable :=
  let names := callTargets imports functions
  if h : names.length < capacity then .ok ⟨names, nodup_eraseDups _, h⟩
  else .error (.symbolSpaceExhausted names.length)

def idOf? (t : SymbolTable) (name : String) : Option UInt8 := (t.names.idxOf? name).map Nat.toUInt8

def nameOf? (t : SymbolTable) (id : UInt8) : Option String := t.names[id.toNat]?

def size (t : SymbolTable) : Nat := t.names.length

/-- Every id with its name, by ascending id. -/
def entries (t : SymbolTable) : List (UInt8 × String) := t.names.mapIdx fun i name => (i.toUInt8, name)

/-- **A name and its id determine each other.** -/
theorem idOf?_eq_some_iff (t : SymbolTable) (name : String) (id : UInt8) :
    t.idOf? name = some id ↔ t.nameOf? id = some name := by
  have small := t.small
  simp only [idOf?, nameOf?, Option.map_eq_some_iff]
  constructor
  · rintro ⟨i, hi, rfl⟩
    obtain ⟨hlt, he, _⟩ := List.idxOf?_eq_some_iff.1 hi
    have hm : i.toUInt8.toNat = i := by simp; omega
    rw [hm, List.getElem?_eq_getElem hlt, he]
  · intro h
    obtain ⟨hlt, he⟩ := List.getElem?_eq_some_iff.1 h
    refine ⟨id.toNat, List.idxOf?_eq_some_iff.2 ⟨hlt, he, fun j hj hje => ?_⟩, by simp⟩
    have hij : j = id.toNat := (List.getElem_inj t.nodup).1 (hje.trans he.symm)
    omega

end SymbolTable
end Wordcode
