import Hygiene.Ident

/-!
# Numbering of identifiers

An identifier is shown with a number behind its hint. Under `global` numbering that is the number it
was drawn with. Under `canonical` numbering identifiers are counted from 1 in the order in which
they first appear in the text, so the text does not depend on what was drawn before; `Numbers` is
the table of those seen so far, which a printer hands on from left to right.
-/

namespace Hygiene

/-- How identifiers are numbered. -/
inductive Numbering where
  | canonical
  | global
  deriving DecidableEq

/-- The identifiers that have a canonical number, in the order in which they got it. -/
structure Numbers where
  seen : List UInt64 := []

namespace Numbers

/-- The canonical number of an identifier: the one it has, or the next one free. -/
def number (numbers : Numbers) (id : UInt64) : Nat × Numbers :=
  match numbers.seen.idxOf? id with
  | some place => (place + 1, numbers)
  | none => (numbers.seen.length + 1, ⟨numbers.seen ++ [id]⟩)

theorem number_of_idxOf? {numbers : Numbers} {id : UInt64} {place : Nat}
    (h : numbers.seen.idxOf? id = some place) : numbers.number id = (place + 1, numbers) := by
  simp [number, h]

theorem number_of_not_mem {numbers : Numbers} {id : UInt64} (h : id ∉ numbers.seen) :
    numbers.number id = (numbers.seen.length + 1, ⟨numbers.seen ++ [id]⟩) := by
  simp [number, List.idxOf?_eq_none_iff.mpr h]

end Numbers

/-- The text of an identifier, and the table after showing it. -/
def Numbering.label (numbering : Numbering) (i : Ident) (numbers : Numbers) : String × Numbers :=
  match numbering with
  | .global => (i.text, numbers)
  | .canonical =>
    let (n, numbers) := numbers.number i.id
    (i.labelled n, numbers)

end Hygiene
