import Wordcode.Command.Arguments
import Wordcode.Text.Blank
import Wordcode.Transform
/-!
# Command.Run — the transform of files

The module and its memory are read, the transform is done, and only then is anything printed or written: the program if
that was asked for, the new module, the new memory, and at the end what the loader needs.  A missing memory file is no
memory, which is for the transform to judge; a file that cannot be read otherwise ends the run.
-/
namespace Wordcode.Command

inductive Contents
  | bytes (data : List UInt8)
  | missing
  /-- There is something, but it cannot be read as a file. -/
  | unreadable
deriving DecidableEq, Repr

/-- What a run does outside of itself. -/
structure Actions (m : Type → Type) where
  read : String → m Contents
  /-- Replace what a file holds; `false` if that cannot be done. -/
  write : String → List UInt8 → m Bool
  print : String → m Unit
  report : Diagnostic → m Unit

inductive Failure
  | read (path : String)
  | write (path : String)
  | transform (code : String)
deriving DecidableEq, Repr

def Failure.message : Failure → String
  | read path => s!"Failed to read {path}"
  | write path => s!"Failed to write {path}"
  | transform code => s!"Transform failed ({code})"

def decodeUtf8? (data : List UInt8) : Option String := String.fromUTF8? ⟨data.toArray⟩

def encodeUtf8 (text : String) : List UInt8 := text.toUTF8.data.toList

section
variable {m : Type → Type} [Monad m] (act : Actions m)

def readText (path : String) : ExceptT Failure m String := do
  match ← act.read path with
  | .bytes data =>
    match decodeUtf8? data with
    | some text => return text
    | none => throw (.read path)
  | _ => throw (.read path)

/-- The bytes of a file that may be missing. -/
def readData (path : String) : ExceptT Failure m (Option (List UInt8)) := do
  match ← act.read path with
  | .bytes data => return some data
  | .missing => return none
  | .unreadable => throw (.read path)

def writeData (path : String) (data : List UInt8) : ExceptT Failure m Unit := do
  if !(← act.write path data) then throw (.write path)

/-- Everything that is printed and written for the result of a transform. -/
def deliver (args : Arguments) (a : Artifacts) : ExceptT Failure m Unit := do
  if args.dumpBytecode then act.print (a.disassembly ++ "\n")
  writeData act args.output (encodeUtf8 a.moduleText)
  writeData act args.memoryOutput a.memory
  act.print (a.bindings.prelude ++ "\n")
  act.print (Text.trimEnd a.bindings.envEntries ++ "\n")

/-- **What the arguments ask for, done.** -/
def run (args : Arguments) : ExceptT Failure m Unit := do
  let text ← readText act args.input
  let data ← readData act args.memoryInput
  match Wordcode.transform text (data.map args.staticMemory) args.options with
  | .error f =>
    act.report f.toDiagnostic
    throw (.transform f.code)
  | .ok a =>
    a.diagnostics.forM fun d => act.report d
    deliver act args a

end
end Wordcode.Command
