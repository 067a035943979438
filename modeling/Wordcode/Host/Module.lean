import Wordcode.Host.Import
import Wordcode.Text.Lines
/-!
# Host.Module — a module as lines, declarations and function blocks

The host language is not parsed.  A module is a run of items: lines that are carried through, lines that declare
imports, and function blocks, each with the listing that its closing line carried.  Rendering writes the items under
each other without the listings; new declarations go behind the last declaration, new text behind everything.
-/
namespace Wordcode

/-- A function: its header line, the lines of its body, and the listing behind its closing brace. -/
structure FunctionBlock where
  name : String
  header : String
  body : List String
  listing : Option String
deriving DecidableEq, Repr

namespace FunctionBlock

/-- The lines of a function, closed by a brace alone. -/
def lines (f : FunctionBlock) : List String := f.header :: f.body ++ ["\x7d"]

def withoutListing (f : FunctionBlock) : FunctionBlock := { f with listing := none }

end FunctionBlock

inductive HostItem
  /-- A line that is carried through. -/
  | text (line : String)
  | declaration (line : String) (imports : List Import)
  | function (block : FunctionBlock)
deriving DecidableEq, Repr

namespace HostItem

def lines : HostItem → List String
  | text line => [line]
  | declaration line _ => [line]
  | function block => block.lines

def isDeclaration : HostItem → Bool
  | declaration _ _ => true
  | _ => false

def imports : HostItem → List Import
  | declaration _ imports => imports
  | _ => []

def block? : HostItem → Option FunctionBlock
  | function block => some block
  | _ => none

end HostItem

structure HostModule where
  items : List HostItem
deriving DecidableEq, Repr

namespace HostModule

def imports (m : HostModule) : List Import := m.items.flatMap HostItem.imports

def functions (m : HostModule) : List FunctionBlock := m.items.filterMap HostItem.block?

/-- The first function of a name. -/
def function? (m : HostModule) (name : String) : Option FunctionBlock := m.functions.find? fun f => f.name == name

/-- The items behind the last declaration. -/
def undeclaring (m : HostModule) : List HostItem :=
  (m.items.reverse.takeWhile fun item => !item.isDeclaration).reverse

/-- The items up to the last declaration and with it. -/
def declaring (m : HostModule) : List HostItem :=
  (m.items.reverse.dropWhile fun item => !item.isDeclaration).reverse

/-- The lines of a module with further declarations and further text. -/
def renderLines (m : HostModule) (declarations appended : List String) : List String :=
  m.declaring.flatMap HostItem.lines ++ declarations ++ m.undeclaring.flatMap HostItem.lines ++ appended

/-- **The text of a module** with further declarations behind the last one and further text behind everything. -/
def render (m : HostModule) (declarations appended : List String) : String :=
  Text.unlines (m.renderLines declarations appended)

/-- No item is lost between the two parts. -/
theorem declaring_append_undeclaring (m : HostModule) : m.declaring ++ m.undeclaring = m.items := by
  simp only [declaring, undeclaring, ← List.reverse_append, List.takeWhile_append_dropWhile, List.reverse_reverse]

end HostModule
end Wordcode
