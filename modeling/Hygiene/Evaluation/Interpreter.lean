import Hygiene.Evaluation.Failure
import Hygiene.Evaluation.Scope
import Hygiene.OrderedMap
import Hygiene.Text.Quoted

/-!
# Evaluation

An `Interpreter` is a table of host functions. What these do to the world outside is a change of a
host state of any type, so whatever a host can observe (a log, a counter, a file) is part of the
statement when two runs are said to agree.

`Interpreter.eval` runs an expression on a scope and a host state and yields an `Outcome`: a value
or the failure that stopped it, with the scope and the state it left behind. Arguments are evaluated
from left to right before the function is looked up; a `letIn` pushes one binding after the other
and takes the scope back to where it was, also when something fails on the way; a failure ends
everything around it at once (`Outcome.andThen_error`).
-/

namespace Hygiene

/-- A host function: from its arguments and the host state to a value or a failure, and the host
state afterwards. -/
abbrev HostFunction (σ : Type) := List Value → σ → Except Failure Value × σ

/-- The functions that expressions may call. -/
structure Interpreter (σ : Type) where
  functions : OrderedMap String (HostFunction σ) := {}

namespace Interpreter

variable {σ : Type}

/-- Register a host function; an earlier one of that name is replaced in its place. -/
def register (interp : Interpreter σ) (name : String) (f : HostFunction σ) : Interpreter σ :=
  ⟨interp.functions.insert name f⟩

def hasFunction (interp : Interpreter σ) (name : String) : Bool :=
  interp.functions.contains name

/-- The names of the functions in the order of registration, in words. -/
def debug (interp : Interpreter σ) : String :=
  "Interpreter \x7b functions: [" ++ ", ".intercalate (interp.functions.keys.map Text.quoted)
    ++ "] \x7d"

end Interpreter

/-- How a run ended, and what it left behind. -/
structure Outcome (σ α : Type) where
  result : Except Failure α
  scope : Scope
  host : σ

namespace Outcome

variable {σ α β : Type}

/-- Go on with the value if there is one; a failure stays as it is. -/
def andThen (o : Outcome σ α) (next : α → Scope → σ → Outcome σ β) : Outcome σ β :=
  match o.result with
  | .ok a => next a o.scope o.host
  | .error failure => ⟨.error failure, o.scope, o.host⟩

/-- Take the scope back to an earlier depth, however the run ended. -/
def restore (o : Outcome σ α) (depth : Nat) : Outcome σ α :=
  { o with scope := o.scope.truncate depth }

@[simp] theorem andThen_ok (a : α) (s : Scope) (h : σ) (next : α → Scope → σ → Outcome σ β) :
    (Outcome.mk (.ok a) s h).andThen next = next a s h := rfl

@[simp] theorem andThen_error (failure : Failure) (s : Scope) (h : σ)
    (next : α → Scope → σ → Outcome σ β) :
    (Outcome.mk (.error failure) s h).andThen next = ⟨.error failure, s, h⟩ := rfl

end Outcome

namespace Interpreter

variable {σ : Type}

def apply (interp : Interpreter σ) (function : String) (args : List Value) (scope : Scope)
    (host : σ) : Outcome σ Value :=
  match interp.functions.get? function with
  | none => ⟨.error (.unknownFunction function), scope, host⟩
  | some f =>
    let (result, host) := f args host
    ⟨result, scope, host⟩

mutual

def eval (interp : Interpreter σ) : Expr → Scope → σ → Outcome σ Value
  | .lit v, scope, host => ⟨.ok v, scope, host⟩
  | .name n, scope, host =>
    match scope.lookupName? n with
    | some v => ⟨.ok v, scope, host⟩
    | none => ⟨.error (.unresolvedName n), scope, host⟩
  | .ref i, scope, host =>
    match scope.lookupIdent? i with
    | some v => ⟨.ok v, scope, host⟩
    | none => ⟨.error (.unbound i), scope, host⟩
  | .call f args, scope, host =>
    (evalArgs interp args scope host).andThen fun vs scope host => interp.apply f vs scope host
  | .letIn bindings body, scope, host =>
    ((evalBindings interp bindings scope host).andThen fun _ inner host =>
      eval interp body inner host).restore scope.depth
  | .seq items, scope, host => evalSeq interp items .nil scope host
  | .cond c t e, scope, host =>
    (eval interp c scope host).andThen fun v scope host =>
      if v.isTruthy then eval interp t scope host else eval interp e scope host

/-- Run arguments from left to right. -/
def evalArgs (interp : Interpreter σ) : List Expr → Scope → σ → Outcome σ (List Value)
  | [], scope, host => ⟨.ok [], scope, host⟩
  | e :: es, scope, host =>
    (eval interp e scope host).andThen fun v scope host =>
      (evalArgs interp es scope host).andThen fun vs scope host => ⟨.ok (v :: vs), scope, host⟩

/-- Run the values of bindings in order and push each before the next one runs. -/
def evalBindings (interp : Interpreter σ) :
    List (Binder × Expr) → Scope → σ → Outcome σ Unit
  | [], scope, host => ⟨.ok (), scope, host⟩
  | (b, e) :: rest, scope, host =>
    (eval interp e scope host).andThen fun v scope host =>
      evalBindings interp rest (scope.push b v) host

/-- Run expressions in order; the value is the last one's, or the given one when there is none. -/
def evalSeq (interp : Interpreter σ) : List Expr → Value → Scope → σ → Outcome σ Value
  | [], last, scope, host => ⟨.ok last, scope, host⟩
  | e :: es, _, scope, host =>
    (eval interp e scope host).andThen fun v scope host => evalSeq interp es v scope host

end

end Interpreter

end Hygiene
