/-!
# Digits

The value of a digit in bases up to sixteen, letters in either case.
-/

namespace Hygiene.Text

/-- The value of a character as a hexadecimal digit. -/
def hexDigit? (ch : Char) : Option Nat :=
  if '0' ≤ ch ∧ ch ≤ '9' then some (ch.toNat - 48)
  else if 'a' ≤ ch ∧ ch ≤ 'f' then some (ch.toNat - 87)
  else if 'A' ≤ ch ∧ ch ≤ 'F' then some (ch.toNat - 55)
  else none

/-- The value of a character as a digit of a base of at most sixteen. -/
def digit? (base : Nat) (ch : Char) : Option Nat := (hexDigit? ch).filter (· < base)

/-- The number that digits stand for, the most significant one first. -/
def ofDigits (base : Nat) (ds : List Nat) : Nat := ds.foldl (fun n d => base * n + d) 0

end Hygiene.Text
