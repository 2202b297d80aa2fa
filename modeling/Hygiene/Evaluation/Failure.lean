import Hygiene.Fault
import Hygiene.Ident

/-!
# Failures of evaluation

Why running an expression stopped: something it mentions is not there, a host function refused, or
one of the sequence operations found a fault, which is passed on with its own wording. `message`,
`code` and `help` read like those of a `Fault`.
-/

namespace Hygiene

/-- Why an evaluation stopped. -/
inductive Failure where
  /-- A reference outside the `let` that binds its identifier. -/
  | unbound (ident : Ident)
  /-- A name that nothing around it binds. -/
  | unresolvedName (name : String)
  | unknownFunction (name : String)
  /-- A host function refused its arguments. -/
  | host (function detail : String)
  | fault (cause : Fault)

namespace Failure

def message : Failure → String
  | unbound ident => "unbound identifier '" ++ ident.text ++ "'"
  | unresolvedName name => "unresolved name '" ++ name ++ "'"
  | unknownFunction name => "unknown function '" ++ name ++ "'"
  | host function detail => function ++ ": " ++ detail
  | fault cause => cause.message

/-- The stable name of the cause. -/
def code : Failure → String
  | unbound _ => "hygen::eval::unbound"
  | unresolvedName _ => "hygen::eval::unresolved_name"
  | unknownFunction _ => "hygen::eval::unknown_function"
  | host .. => "hygen::eval::host"
  | fault _ => "hygen::eval::runtime"

def help : Failure → Option String
  | unbound _ => some "the identifier is referenced outside the let that binds it"
  | unresolvedName name =>
    some ("bind '" ++ name ++ "' in an enclosing let or add it to the once-only binding set")
  | unknownFunction name =>
    some ("register '" ++ name ++ "' with Interpreter::register before evaluating")
  | host .. | fault _ => none

end Failure

end Hygiene
