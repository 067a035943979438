import Wordcode.Memory.Layout
/-!
# Memory.Bindings — how a module gets hold of the interpreter's stack

Two variables bound the stack.  The loader computes them, passes them to the module in its environment, and the module
declares them as imports.
-/
namespace Wordcode

/-- What connects the loader, the environment and the module. -/
structure Bindings where
  /-- The loader's statement that computes the bounds. -/
  prelude : String
  /-- The entries of the environment's object literal. -/
  envEntries : String
  imports : List String
deriving DecidableEq, Repr

namespace Bindings

/-- The variable that holds the top of the interpreter's stack. -/
def stackTop : String := "EMTSTACKTOP"

/-- The variable that holds the limit of the interpreter's stack. -/
def stackMax : String := "EMT_STACK_MAX"

/-- An environment entry that passes a variable under its own name. -/
def envEntry (name : String) : String := "\"" ++ name ++ "\": " ++ name ++ ", "

def declare (name : String) : String := "var " ++ name ++ " = env." ++ name ++ "|0;"

def ofLayout (l : Layout) : Bindings :=
  { prelude := s!"var {stackTop} = STATIC_BASE + {l.stackOffset.toNat}, "
      ++ s!"{stackMax} = {stackTop} + {l.stackCapacity.toNat};"
    envEntries := envEntry stackTop ++ envEntry stackMax
    imports := [declare stackTop, declare stackMax] }

end Bindings
end Wordcode
