/-!
# Diagnostic — a message about a module, with where it points

A diagnostic may name the function it is about, and may point at a span of a source text.  Its headline is the one line
that says all but the span, the source and the help.
-/
namespace Wordcode

/-- A stretch of a text: it starts after `start` bytes and stops before byte `stop`. -/
structure Span where
  start : Nat
  stop : Nat
deriving DecidableEq, Repr

inductive Severity
  /-- The transform cannot succeed. -/
  | error
  /-- The transform succeeds but leaves something out. -/
  | warning
deriving DecidableEq, Repr

def Severity.word : Severity → String
  | error => "error"
  | warning => "warning"

structure Diagnostic where
  severity : Severity
  message : String
  function : Option String
  /-- Where it points in `source`. -/
  span : Option Span
  /-- The text that `span` points into. -/
  source : Option String
  help : List String
  code : Option String
deriving DecidableEq, Repr

namespace Diagnostic

def codeTag : Option String → String
  | none => ""
  | some code => s!"[{code}]"

def functionTag : Option String → String
  | none => ""
  | some name => s!" (in {name})"

/-- Severity, code, message and function in one line. -/
def headline (d : Diagnostic) : String :=
  d.severity.word ++ codeTag d.code ++ ": " ++ d.message ++ functionTag d.function

end Diagnostic
end Wordcode
