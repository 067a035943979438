import Wordcode.Fault
import Wordcode.Isa.Opcode
/-!
# Listing.Error — why a listing cannot be read

Each error names its cause and points at the span of the listing that shows it.  A listing that cannot be read is left
out with a warning, but for one cause: a mnemonic outside the instruction set is a fault (`escalate`).
-/
namespace Wordcode.Listing

/-- What the grammar of listings wants at a place. -/
inductive Expected
  | openBracket
  | element
  | endOfInput
deriving DecidableEq, Repr

def Expected.text : Expected → String
  | openBracket => "'['"
  | element => "name or integer"
  | endOfInput => "end of input"

/-- What a name stands for in a call. -/
inductive Role
  | callTarget
  | signature
deriving DecidableEq, Repr

def Role.text : Role → String
  | callTarget => "call target"
  | signature => "signature"

inductive ErrorKind
  /-- The text is no array of names and integers. -/
  | grammar (expected : Expected)
  /-- The elements are not a whole number of words. -/
  | notWordAligned (count : Nat)
  /-- A word starts with an integer. -/
  | expectedOpcode
  /-- A word starts with a name outside the instruction set. -/
  | unknownOpcode (mnemonic : String)
  /-- A call has an integer where a name is due. -/
  | expectedName (role : Role)
  /-- A name stands where a byte is due. -/
  | expectedByte
  /-- An integer does not fit in a byte. -/
  | operandOutOfRange (text : String)
  /-- A call's second name spells no signature. -/
  | invalidSignature (text : String)
  /-- A call has fewer elements left than it needs. -/
  | truncatedCall (needed left : Nat)
  /-- The first word is no function header. -/
  | missingPrologue (found : Opcode)
deriving DecidableEq, Repr

namespace ErrorKind

def message : ErrorKind → String
  | grammar expected => s!"Expected {expected.text}"
  | notWordAligned count => s!"Listing has {count} bytes, not a multiple of 4"
  | expectedOpcode => "Expected an opcode name"
  | unknownOpcode mnemonic => s!"Unknown opcode '{mnemonic}'"
  | expectedName role => s!"Expected {role.text} name"
  | expectedByte => "Expected a byte operand"
  | operandOutOfRange text => s!"Operand {text} does not fit in a byte"
  | invalidSignature text => s!"Invalid call signature '{text}'"
  | truncatedCall needed left => s!"Call needs {needed} bytes but only {left} remain"
  | missingPrologue found => s!"Listing starts with {found.mnemonic} instead of FUNC"

def code : ErrorKind → String
  | grammar _ => "W101"
  | notWordAligned _ => "W102"
  | expectedOpcode => "W103"
  | unknownOpcode _ => "E003"
  | expectedName _ => "W104"
  | expectedByte => "W105"
  | operandOutOfRange _ => "W106"
  | invalidSignature _ => "W107"
  | truncatedCall _ _ => "W108"
  | missingPrologue _ => "W109"

def help : ErrorKind → List String
  | invalidSignature _ => ["Signatures are a return kind (v, i, f, d) followed by parameter kinds"]
  | missingPrologue _ => ["Every listing must declare its locals with FUNC first"]
  | _ => []

end ErrorKind

/-- A cause and the span of the listing that shows it. -/
structure Error where
  kind : ErrorKind
  span : Span
deriving DecidableEq, Repr

namespace Error

/-- The wording of an error, with its place. -/
def text (e : Error) : String := s!"{e.kind.message} at {e.span.start}..{e.span.stop}"

/-- The warning that a function is left out, pointing into its listing. -/
def toDiagnostic (e : Error) (function source : String) : Diagnostic :=
  { severity := .warning
    message := s!"Skipping '{function}', its bytecode does not parse: {e.kind.message}"
    function := some function
    span := some e.span
    source := some source
    help := e.kind.help
    code := some e.kind.code }

/-- **The fault that an error in the listing of `function` amounts to**, if it is more than a warning. -/
def escalate (e : Error) (function : String) : Option Fault :=
  match e.kind with
  | .unknownOpcode mnemonic => some (.unknownOpcode function mnemonic)
  | _ => none

end Error
end Wordcode.Listing
