/-!
# Identifiers and their supply

An `Ident` is a number with a display hint, and the number alone is its identity: two identifiers
with one hint stay apart, and a hint never makes two identifiers equal (`Ident.beq_iff`). Numbers
come from a `Supply`, a 64-bit counter that only moves forward. Drawing from it is an ordinary
function that returns the supply left over, so whatever has been drawn stays drawn, also when the
work it was drawn for fails later.
-/

namespace Hygiene

/-- A hygienic identifier: a number that no other draw from the supply shares, and a hint that is
only ever shown. -/
structure Ident where
  id : UInt64
  hint : String

namespace Ident

/-- Identity is the number; the hint is not looked at. -/
instance : BEq Ident := ⟨fun a b => a.id == b.id⟩

/-- Identifiers are ordered as they were drawn. -/
instance : Ord Ident := ⟨fun a b => compare a.id b.id⟩

instance : Hashable Ident := ⟨fun a => hash a.id⟩

theorem beq_iff {a b : Ident} : (a == b) = true ↔ a.id = b.id := by
  change (a.id == b.id) = true ↔ a.id = b.id
  exact beq_iff_eq

theorem beq_eq_false_iff {a b : Ident} : (a == b) = false ↔ a.id ≠ b.id := by
  rw [Bool.eq_false_iff, Ne, beq_iff]

instance : EquivBEq Ident where
  rfl := beq_iff.mpr rfl
  symm h := beq_iff.mpr (beq_iff.mp h).symm
  trans h k := beq_iff.mpr ((beq_iff.mp h).trans (beq_iff.mp k))

/-- The hint as shown: an empty one is shown as `g`. -/
def displayHint (i : Ident) : String :=
  if i.hint.isEmpty then "g" else i.hint

/-- The identifier with a number of the caller's choice behind its hint. -/
def labelled (i : Ident) (number : Nat) : String :=
  i.displayHint ++ "#" ++ number.repr

/-- The identifier as shown on its own, with the number it was drawn with. -/
def text (i : Ident) : String :=
  i.labelled i.id.toNat

/-- The text that names the type as well, for debugging. -/
def debug (i : Ident) : String :=
  "Ident(" ++ i.text ++ ")"

end Ident

/-- What is left to draw: every number from `next` on. -/
structure Supply where
  next : UInt64 := 0

namespace Supply

def fresh (s : Supply) (hint : String) : Ident × Supply :=
  (⟨s.next, hint⟩, ⟨s.next + 1⟩)

/-- Draw `n` identifiers that share a hint, in order. -/
def freshMany (s : Supply) (hint : String) : Nat → List Ident × Supply
  | 0 => ([], s)
  | n + 1 =>
    let (i, s) := s.fresh hint
    let (rest, s) := s.freshMany hint n
    (i :: rest, s)

@[simp] theorem fresh_id (s : Supply) (hint : String) : (s.fresh hint).1.id = s.next := rfl

@[simp] theorem fresh_next (s : Supply) (hint : String) :
    (s.fresh hint).2.next = s.next + 1 := rfl

end Supply

end Hygiene
