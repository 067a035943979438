import Wordcode.Memory.Image
import Wordcode.Text.Find
import Wordcode.Text.Numeral
/-!
# Command.Arguments — what a user asks for on the command line

Two paths, options that take a value, and one flag.  An option's value follows it or stands behind an equals sign; a
text that starts with a dash is no value, unless it is the dash alone; behind `--` every text is a path.

A value that follows its option is judged when the next path, the next known option or the end shows that it is
complete; until then an unknown option or a path too many is reported first.
-/
namespace Wordcode.Command

/-- Why arguments are refused, or that help is asked for. -/
inductive UsageError
  | missingRequired
  /-- An option that there is not, or a path too many. -/
  | unknownArgument
  /-- An option without a value, or an empty path. -/
  | emptyValue
  /-- A value that is no number of 32 bits. -/
  | invalidNumber
  | unwantedValue
  | givenTwice
  | helpWanted
deriving DecidableEq, Repr

structure Arguments where
  input : String
  output : String
  /-- The initial contents of static memory. -/
  mem : Option String
  /-- The size declared for static memory. -/
  staticSize : Option UInt32
  options : Options
  /-- The assembled program is to be printed. -/
  dumpBytecode : Bool
deriving DecidableEq, Repr

inductive Slot
  | input
  | output
  | mem
  | staticSize
  | staticBase
  | stackCapacity
deriving DecidableEq, Repr

/-- The slot of an option that takes a value. -/
def Slot.ofOption? : String → Option Slot
  | "mem" => some .mem
  | "static-size" => some .staticSize
  | "static-base" => some .staticBase
  | "stack-capacity" => some .stackCapacity
  | _ => none

/-- The values that have been judged. -/
structure Given where
  input : Option String := none
  output : Option String := none
  mem : Option String := none
  staticSize : Option UInt32 := none
  staticBase : Option UInt32 := none
  stackCapacity : Option UInt32 := none
  dumpBytecode : Bool := false
deriving DecidableEq, Repr

/-- A path is any text that is not empty. -/
def readPath (value : String) : Except UsageError String := if value.isEmpty then .error .emptyValue else .ok value

def readNumber (value : String) : Except UsageError UInt32 :=
  match Text.word? value.toList with
  | some n => .ok n
  | none => .error .invalidNumber

/-- A value for a slot that may hold one already. -/
def fillOnce {α : Type} (held : Option α) (value : Except UsageError α) : Except UsageError (Option α) :=
  if held.isSome then .error .givenTwice else value.map some

def Given.store (g : Given) (value : String) : Slot → Except UsageError Given
  | .input => return { g with input := ← fillOnce g.input (readPath value) }
  | .output => return { g with output := ← fillOnce g.output (readPath value) }
  | .mem => return { g with mem := ← fillOnce g.mem (readPath value) }
  | .staticSize => return { g with staticSize := ← fillOnce g.staticSize (readNumber value) }
  | .staticBase => return { g with staticBase := ← fillOnce g.staticBase (readNumber value) }
  | .stackCapacity => return { g with stackCapacity := ← fillOnce g.stackCapacity (readNumber value) }

/-- A slot whose value is not judged yet; an option's value may still be to come. -/
structure Pending where
  slot : Slot
  value : Option String
deriving DecidableEq, Repr

/-- How far the arguments have been read. -/
structure Reading where
  given : Given
  pending : Option Pending
  /-- How many paths have been met. -/
  paths : Nat
  /-- Every further text is a path. -/
  pathsOnly : Bool
deriving DecidableEq, Repr

namespace Reading

def start : Reading := ⟨{}, none, 0, false⟩

def settle (r : Reading) : Except UsageError Reading :=
  match r.pending with
  | none => .ok r
  | some ⟨_, none⟩ => .error .emptyValue
  | some ⟨slot, some value⟩ => return { r with given := ← r.given.store value slot, pending := none }

def nextPath? (r : Reading) : Option Slot :=
  match r.paths with
  | 0 => some .input
  | 1 => some .output
  | _ => none

def path (r : Reading) (value : String) : Except UsageError Reading :=
  match r.nextPath? with
  | none => .error .unknownArgument
  | some slot => do
    let r ← r.settle
    return { r with pending := some ⟨slot, some value⟩, paths := r.paths + 1 }

def option (r : Reading) (slot : Slot) (attached : Option String) : Except UsageError Reading := do
  let r ← r.settle
  match attached with
  | some value => return { r with given := ← r.given.store value slot }
  | none => return { r with pending := some ⟨slot, none⟩ }

def flag (r : Reading) : Except UsageError Reading := do
  let r ← r.settle
  if r.given.dumpBytecode then throw .givenTwice
  return { r with given := { r.given with dumpBytecode := true } }

def help (r : Reading) : Except UsageError Reading := do
  let _settled ← r.settle
  throw .helpWanted

/-- A text behind two dashes: a name and perhaps a value behind an equals sign. -/
def long (r : Reading) (name : String) (attached : Option String) : Except UsageError Reading :=
  match Slot.ofOption? name, name, attached with
  | some slot, _, _ => r.option slot attached
  | none, "dump-bytecode", none => r.flag
  | none, "dump-bytecode", some _ => .error .unwantedValue
  | none, "help", none => r.help
  | none, "help", some _ => .error .unwantedValue
  | none, _, _ => .error .unknownArgument

/-- A text that is no option: the value of the option before it, or a path. -/
def value (r : Reading) (text : String) : Except UsageError Reading :=
  match r.pending with
  | some ⟨slot, none⟩ => .ok { r with pending := some ⟨slot, some text⟩ }
  | _ => r.path text

/-- **One more argument.** -/
def step (r : Reading) (arg : String) : Except UsageError Reading :=
  if r.pathsOnly then r.path arg
  else
    match arg.toList with
    | ['-', '-'] => .ok { r with pathsOnly := true }
    | '-' :: '-' :: long =>
      match Text.cutAt? '=' long with
      | some (name, attached) => r.long (String.ofList name) (some (String.ofList attached))
      | none => r.long (String.ofList long) none
    | '-' :: 'h' :: _ => r.help
    | '-' :: _ :: _ => .error .unknownArgument
    | _ => r.value arg

/-- What the user asks for once all arguments are read. -/
def finish (r : Reading) : Except UsageError Arguments := do
  let { given := g, .. } ← r.settle
  match g.input, g.output with
  | some input, some output =>
    let preset : Options := {}
    return {
      input
      output
      mem := g.mem
      staticSize := g.staticSize
      options := ⟨g.stackCapacity.getD preset.stackCapacity, g.staticBase.getD preset.staticBase⟩
      dumpBytecode := g.dumpBytecode }
  | _, _ => throw .missingRequired

end Reading

/-- **What the arguments ask for.** -/
def Arguments.parse (args : List String) : Except UsageError Arguments := do
  let reading ← args.foldlM Reading.step .start
  reading.finish

/-- The path of the memory that belongs to a module. -/
def memoryPath (path : String) : String := path ++ ".mem"

namespace Arguments

def memoryInput (a : Arguments) : String := a.mem.getD (memoryPath a.input)

def memoryOutput (a : Arguments) : String := memoryPath a.output

/-- Static memory with the declared size, or else with the size of its data. -/
def staticMemory (a : Arguments) (data : List UInt8) : StaticMemory :=
  match a.staticSize with
  | some size => ⟨data, size⟩
  | none => .full data

end Arguments
end Wordcode.Command
