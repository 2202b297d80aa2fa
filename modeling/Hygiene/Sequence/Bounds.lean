import Hygiene.Fault

/-!
# Bounds

The half-open range of offsets that a traversal covers: from `start` up to, and not including,
`stop`, or to the end of the target when there is no `stop`. Offsets count from zero; generated code
gives them as signed integers, and a negative one is a fault, the start looked at first.
-/

namespace Hygiene

structure Bounds where
  start : Nat := 0
  stop : Option Nat := none
  deriving DecidableEq

/-- A signed integer as an offset. -/
def Bounds.offset (value : Int64) : Except Fault Nat :=
  if value < 0 then .error (.negativeBound value) else .ok value.toInt.toNat

namespace Bounds

def ofSigned (start : Int64) (stop : Option Int64) : Except Fault Bounds :=
  match offset start with
  | .error fault => .error fault
  | .ok start =>
    match stop with
    | none => .ok ⟨start, none⟩
    | some stop =>
      match offset stop with
      | .error fault => .error fault
      | .ok stop => .ok ⟨start, some stop⟩

/-- Whether the range ends before it starts, which makes a traversal visit nothing. -/
def isEmptyRange (b : Bounds) : Bool :=
  match b.stop with
  | none => false
  | some stop => stop < b.start

theorem isEmptyRange_eq_false_iff {b : Bounds} :
    b.isEmptyRange = false ↔ ∀ stop, b.stop = some stop → b.start ≤ stop := by
  unfold isEmptyRange
  cases b.stop with
  | none => simp
  | some stop => simp

end Bounds

end Hygiene
