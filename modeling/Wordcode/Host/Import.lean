import Wordcode.Text.Find
/-!
# Host.Import — what a module declares at its top

A declaration gives a name to the text of an expression.  Only a plain symbol can be called: `isCallable`.
-/
namespace Wordcode

structure Import where
  name : String
  value : String
deriving DecidableEq, Repr

namespace Import

/-- The marks of a value that is no plain symbol: a coercion, arithmetic, a constructor, a number with a fraction. -/
def marks : List String := ["|", "+", "new ", ".0"]

/-- **A value can be called if it bears none of the marks and is not the number zero.** -/
def isCallable (i : Import) : Bool :=
  marks.all (fun mark => !Text.contains mark.toList i.value.toList) && i.value != "0"

end Import
end Wordcode
