import Wordcode.Command.Run
import Wordcode.Report.Render
/-!
# Main — the command line

Reads the arguments, runs the command on real files and reports on the standard error.  The exit code is 0 if all is
done, 1 if the run fails and 2 if the arguments are refused.
-/
namespace Wordcode.Command

def usage : String :=
  "Usage: wordcode [OPTIONS] <INPUT> <OUTPUT>\n\n" ++
  "  <INPUT>                   Module carrying bytecode listings\n" ++
  "  <OUTPUT>                  Where to write the transformed module (memory goes to <OUTPUT>.mem)\n\n" ++
  "      --mem <MEM>           Static memory initializer (default: <INPUT>.mem)\n" ++
  "      --static-size <N>     Declared static size in bytes (default: size of the memory initializer)\n" ++
  "      --static-base <N>     Absolute address of the first static byte (default: 8)\n" ++
  "      --stack-capacity <N>  Bytes reserved for the interpreter stack (default: 1048576)\n" ++
  "      --dump-bytecode       Print the assembled bytecode\n" ++
  "  -h, --help                Print help\n"

def UsageError.message : UsageError → String
  | missingRequired => "the input and the output are required"
  | unknownArgument => "unexpected argument"
  | emptyValue => "a value is required"
  | invalidNumber => "a number of 32 bits is required"
  | unwantedValue => "unexpected value"
  | givenTwice => "an option cannot be used multiple times"
  | helpWanted => "help"

def readFile (path : String) : IO Contents := do
  try
    return .bytes (← IO.FS.readBinFile path).data.toList
  catch
    | .noFileOrDirectory .. => return .missing
    | _ => return .unreadable

def writeFile (path : String) (data : List UInt8) : IO Bool := do
  try
    IO.FS.writeBinFile path ⟨data.toArray⟩
    return true
  catch _ => return false

def fileActions : Actions IO :=
  ⟨readFile, writeFile, fun text => IO.print text, fun d => IO.eprint (Report.render true d)⟩

end Wordcode.Command

open Wordcode.Command in
def main (args : List String) : IO UInt32 := do
  match Arguments.parse args with
  | .error .helpWanted =>
    IO.print usage
    return 0
  | .error e =>
    IO.eprint s!"error: {e.message}\n\n{usage}"
    return 2
  | .ok asked =>
    match ← (run fileActions asked).run with
    | .ok () => return 0
    | .error failure =>
      IO.eprintln s!"error: {failure.message}"
      return 1
