import Wordcode.Isa.Instruction
import Wordcode.Listing.Token
/-!
# Listing.Reader — the instructions of a listing

A listing has one element for each byte of the encoding.  A word is a mnemonic and three bytes; a call is the mnemonic,
two names, and as many bytes as its encoding has left, arguments first and padding after them.  `Listing.parse` reads a
listing whole.

Elements are read by their index among those that are left.  An index beyond them stops the reader as `pastEnd`, which
is no error of the listing: once the elements are known to be whole words it does not come up.
-/
namespace Wordcode.Listing

/-- Why reading words stops. -/
inductive Stop
  /-- No element has this index. -/
  | pastEnd (index : Nat)
  /-- The listing is wrong. -/
  | error (e : Error)
deriving DecidableEq, Repr

/-- Reading words gives a value or stops. -/
abbrev Reading := Except Stop

/-- Stop because the listing is wrong in `span`. -/
def fail {α : Type} (kind : ErrorKind) (span : Span) : Reading α := .error (.error ⟨kind, span⟩)

/-- The element at an index. -/
def tokenAt (ts : List Token) (index : Nat) : Reading Token :=
  match ts[index]? with
  | some t => .ok t
  | none => .error (.pastEnd index)

/-- The name that an element has to be. -/
def Token.asName (t : Token) (role : Role) : Reading String :=
  match t.lexeme with
  | .name text => .ok text
  | .integer _ => fail (.expectedName role) t.span

/-- The byte that an element has to be. -/
def Token.asByte (t : Token) : Reading UInt8 :=
  match t.lexeme with
  | .name _ => fail .expectedByte t.span
  | .integer text =>
    match Text.byte? text.toList with
    | some b => .ok b
    | none => fail (.operandOutOfRange text) t.span

/-- The name at an index. -/
def nameAt (ts : List Token) (index : Nat) (role : Role) : Reading String := do (← tokenAt ts index).asName role

/-- The byte at an index. -/
def byteAt (ts : List Token) (index : Nat) : Reading UInt8 := do (← tokenAt ts index).asByte

/-- The `count` bytes from an index on. -/
def bytesAt (ts : List Token) (index : Nat) : Nat → Reading (List UInt8)
  | 0 => .ok []
  | count + 1 => do
    let b ← byteAt ts index
    return b :: (← bytesAt ts (index + 1) count)

/-- The signature at an index. -/
def signatureAt (ts : List Token) (index : Nat) : Reading Signature := do
  let t ← tokenAt ts index
  let text ← t.asName .signature
  match Signature.parse text with
  | .ok s => .ok s
  | .error _ => fail (.invalidSignature text) t.span

/-- From the start of `first` to the end of the last element. -/
def spanToEnd (first : Token) (ts : List Token) : Span := ⟨first.span.start, (ts.getLastD first).span.stop⟩

/-- The call whose mnemonic is `head`, the first of the elements that are left. -/
def call (head : Token) (ts : List Token) : Reading SymbolicInstr := do
  let target ← nameAt ts 1 .callTarget
  let signature ← signatureAt ts 2
  let needed := Instr.callLen signature.arity
  if ts.length < needed then
    fail (.truncatedCall needed ts.length) (spanToEnd head ts)
  else do
    let args ← bytesAt ts 3 signature.arity
    let _padding ← bytesAt ts (3 + signature.arity) (needed - (3 + signature.arity))
    return .call target signature args

/-- The instruction at the front of the elements that are left. -/
def word (ts : List Token) : Reading SymbolicInstr := do
  let head ← tokenAt ts 0
  match head.lexeme with
  | .integer _ => fail .expectedOpcode head.span
  | .name mnemonic =>
    match Opcode.ofMnemonic? mnemonic with
    | none => fail (.unknownOpcode mnemonic) head.span
    | some .call => call head ts
    | some opcode => do
      let x ← byteAt ts 1
      let y ← byteAt ts 2
      let z ← byteAt ts 3
      return .op opcode x y z

/-- The instructions that the elements spell, each with as many elements as its encoding has bytes. -/
def words (ts : List Token) : Reading (List SymbolicInstr) :=
  match ts with
  | [] => .ok []
  | t :: rest =>
    match word (t :: rest) with
    | .error stop => .error stop
    | .ok i =>
      match words ((t :: rest).drop i.encodedLen) with
      | .error stop => .error stop
      | .ok is => .ok (i :: is)
termination_by ts.length
decreasing_by
  have := i.encodedLen_pos
  simp only [List.length_drop, List.length_cons]
  omega

/-- The elements are not whole words. -/
def Error.notWordAligned (text : String) (count : Nat) : Error :=
  ⟨.notWordAligned count, ⟨0, Text.byteLen text.toList⟩⟩

/-- What a stop says about the listing: elements that end too early are not whole words. -/
def Stop.toError (text : String) (count : Nat) : Stop → Error
  | .pastEnd _ => .notWordAligned text count
  | .error e => e

/-- The first of the instructions has to be a function header. -/
def checkPrologue (ts : List Token) (is : List SymbolicInstr) : Except Error (List SymbolicInstr) :=
  match ts, is with
  | t :: _, i :: _ => if i.opcode = .prologue then .ok is else .error ⟨.missingPrologue i.opcode, t.span⟩
  | _, _ => .ok is

/-- **The instructions of a listing.** -/
def parse (text : String) : Except Error (List SymbolicInstr) := do
  let ts ← tokens text
  if ts.length % wordSize ≠ 0 then
    throw (.notWordAligned text ts.length)
  let is ← (words ts).mapError (Stop.toError text ts.length)
  checkPrologue ts is

end Wordcode.Listing
