import Wordcode.Command.Run
/-!
# Command.FileSystem — files and directories as values

A file system maps places to files and directories, and has a working directory.  A path leads through directories to a
place: from the root if it starts there, and from the working directory otherwise.  A path that is too long, that holds
the character zero, or that comes by a name that is too long leads to no place at all.  `runOn` runs a command on such a
file system.
-/
namespace Wordcode.Command

/-- The names that lead to a place from the root. -/
abbrev Place := List String

inductive Node
  | file (data : List UInt8)
  | directory
deriving DecidableEq, Repr

/-- What is at which place, and where relative paths start.  The first entry of a place counts. -/
structure FileSystem where
  entries : List (Place × Node)
  cwd : Place := []
  /-- Files that cannot be written, and directories in which none can be made. -/
  readOnly : List Place := []
deriving DecidableEq, Repr

inductive Destination
  | file (place : Place) (data : List UInt8)
  | directory
  /-- Nothing is there, but its directory is. -/
  | vacant (place : Place)
  /-- Nothing is there, and nothing can be made there. -/
  | nowhere
  /-- The path goes on behind a file. -/
  | behindFile
  /-- No file can have that path. -/
  | impossible
deriving DecidableEq, Repr

namespace FileSystem

/-- What is at a place; the root is always there. -/
def node? (fs : FileSystem) (place : Place) : Option Node :=
  if place = [] then some .directory else (fs.entries.find? fun entry => entry.1 == place).map Prod.snd

/-- A file system with other contents at a place. -/
def put (fs : FileSystem) (place : Place) (node : Node) : FileSystem :=
  { fs with entries := fs.entries.filter (fun entry => entry.1 != place) ++ [(place, node)] }

def maxName : Nat := 255

def maxPath : Nat := 4095

/-- Where the parts of a path lead from a directory.  The root is the directory around itself. -/
def follow (fs : FileSystem) (dir : Place) : List String → Destination
  | [] => .directory
  | part :: more =>
    if part = "" ∨ part = "." then fs.follow dir more
    else if part = ".." then fs.follow dir.dropLast more
    else if maxName < part.utf8ByteSize then .impossible
    else
      match fs.node? (dir ++ [part]), more with
      | some .directory, _ => fs.follow (dir ++ [part]) more
      | some (.file data), [] => .file (dir ++ [part]) data
      | some (.file _), _ :: _ => .behindFile
      | none, [] => .vacant (dir ++ [part])
      | none, _ :: _ => .nowhere

def parts (path : String) : List String := (Text.cutAll '/' path.toList).map String.ofList

/-- The path can be looked up: it is not too long and holds no zero. -/
def isPath (path : String) : Bool := path.utf8ByteSize ≤ maxPath && !path.toList.contains '\x00'

/-- The parts by which a path leads from the root. -/
def route (fs : FileSystem) (path : String) : List String :=
  if path.toList.head? = some '/' then parts path else fs.cwd ++ parts path

def destination (fs : FileSystem) (path : String) : Destination :=
  if !isPath path then .impossible else if path = "" then .nowhere else fs.follow [] (fs.route path)

/-- The contents of the file that a path leads to. -/
def read (fs : FileSystem) (path : String) : Contents :=
  match fs.destination path with
  | .file _ data => .bytes data
  | .vacant _ | .nowhere => .missing
  | .directory | .behindFile | .impossible => .unreadable

/-- The file system with other contents in the file that a path leads to, which may be new. -/
def write? (fs : FileSystem) (path : String) (data : List UInt8) : Option FileSystem :=
  match fs.destination path with
  | .file place _ => if place ∈ fs.readOnly then none else some (fs.put place (.file data))
  | .vacant place => if place.dropLast ∈ fs.readOnly then none else some (fs.put place (.file data))
  | .directory | .nowhere | .behindFile | .impossible => none

end FileSystem

/-- What a command acts on: the files, and what has been printed. -/
structure World where
  files : FileSystem
  stdout : String
deriving DecidableEq, Repr

namespace World

/-- The contents of a file; nothing changes. -/
def read (path : String) : StateM World Contents := fun w => (w.files.read path, w)

/-- New contents for a file; nothing changes if that cannot be done. -/
def write (path : String) (data : List UInt8) : StateM World Bool := fun w =>
  match w.files.write? path data with
  | some files => (true, { w with files })
  | none => (false, w)

/-- A text behind what has been printed. -/
def print (text : String) : StateM World Unit := fun w => ((), { w with stdout := w.stdout ++ text })

/-- A command's actions on a world; a diagnostic leaves no trace there. -/
def actions : Actions (StateM World) := ⟨read, write, print, fun _ => pure ()⟩

end World

/-- **What a run makes of a file system**: how it ends, the files then, and what was printed. -/
def runOn (files : FileSystem) (args : Arguments) : Except Failure Unit × World :=
  (run World.actions args).run ⟨files, ""⟩

end Wordcode.Command
