import Hygiene.Evaluation.Interpreter
import Hygiene.Sequence.Collector
import Hygiene.Sequence.Traversal

/-!
# Primitive functions

The functions that every interpreter starts with: `+` adds integers and never wraps, `list` and
`vector` build sequences, and `slice` takes a range of a sequence in the shape of that sequence.
None of them touches the host state.
-/

namespace Hygiene.Primitive

/-- The integer given as an argument, or the refusal of the function it was given to. -/
def integer (function : String) (v : Value) : Except Failure Int64 :=
  match v.asInt? with
  | some n => .ok n
  | none => .error (.host function ("expected int, got " ++ v.kind))

theorem integer_int (function : String) (n : Int64) : integer function (.int n) = .ok n := rfl

theorem integer_of_ne {v : Value} (h : ∀ n, v ≠ .int n) (function : String) :
    integer function v = .error (.host function ("expected int, got " ++ v.kind)) := by
  cases v with
  | int n => exact absurd rfl (h n)
  | _ => rfl

/-- The sum of two integers, if 64 bits hold it. -/
def addInRange (a b : Int64) : Option Int64 :=
  let sum := a.toInt + b.toInt
  if Int64.minValue.toInt ≤ sum ∧ sum ≤ Int64.maxValue.toInt then some (.ofInt sum) else none

/-- Add arguments to a sum so far, from left to right. The first argument that is no integer or
takes the sum out of range decides the failure. -/
def addFrom (sum : Int64) : List Value → Except Failure Value
  | [] => .ok (.int sum)
  | v :: rest =>
    match integer "+" v with
    | .error failure => .error failure
    | .ok n =>
      match addInRange sum n with
      | none => .error (.host "+" "integer overflow")
      | some sum => addFrom sum rest

def add (args : List Value) : Except Failure Value := addFrom 0 args

/-- The elements of a sequence within signed offsets, in the shape of the sequence; the absent value
gives a vector. -/
def sliceWithin (target : Value) (start : Int64) (stop : Option Int64) : Except Failure Value :=
  match Bounds.ofSigned start stop with
  | .error fault => .error (.fault fault)
  | .ok bounds =>
    match target.traverse bounds Collector.append {} with
    | (.error fault, _) => .error (.fault fault)
    | (.ok (), picked) =>
      match target with
      | .list _ => .ok (.list picked.toList)
      | _ => .ok (.vector picked.toList)

/-- A range of a sequence: the sequence, where to start, and where to stop unless it is the end. -/
def slice (args : List Value) : Except Failure Value :=
  match args with
  | [target, start] =>
    match integer "slice" start with
    | .error failure => .error failure
    | .ok start => sliceWithin target start none
  | [target, start, stop] =>
    match integer "slice" start with
    | .error failure => .error failure
    | .ok start =>
      match integer "slice" stop with
      | .error failure => .error failure
      | .ok stop => sliceWithin target start (some stop)
  | _ =>
    .error (.host "slice" ("expected 2 or 3 arguments, got " ++ args.length.repr))

/-- A function that leaves the host state alone. -/
def stateless {σ : Type} (f : List Value → Except Failure Value) : HostFunction σ :=
  fun args host => (f args, host)

end Hygiene.Primitive

namespace Hygiene.Interpreter

def standard {σ : Type} : Interpreter σ :=
  ((((({} : Interpreter σ).register "+" (Primitive.stateless Primitive.add)).register "list"
    (Primitive.stateless fun args => .ok (.list args))).register "vector"
    (Primitive.stateless fun args => .ok (.vector args))).register "slice"
    (Primitive.stateless Primitive.slice))

end Hygiene.Interpreter
