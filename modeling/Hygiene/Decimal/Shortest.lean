import Hygiene.Decimal.Binary

/-!
# Shortest decimal texts

The decimals that round to a given binary64 value form an interval around it, ends included exactly
when the mantissa is even (`Binary.readsBack`). `Binary.shortest` takes the decimal of fewest digits
in it; of two with the same number of digits the nearer one, and of two equally near the greater. It
tries the two neighbours of the value on the decimal grids of one digit, two digits, and so on;
seventeen always suffice. `Binary.positional` writes the digits without an exponent and with at
least one digit on either side of the point.
-/

namespace Hygiene.Decimal

structure Scientific where
  digits : Nat
  exponent : Int

/-- Move one trailing zero into the exponent. -/
def Scientific.trim (d : Scientific) : Scientific :=
  if d.digits % 10 = 0 then ⟨d.digits / 10, d.exponent + 1⟩ else d

namespace Binary

/-- Whether the value below is only half as far away as the value above. -/
def narrowBelow (b : Binary) : Bool :=
  b.mantissa == Nat.pow 2 52 && b.exponent > minExponent

def readsBack (b : Binary) (d : Scientific) : Bool :=
  let x := Fraction.scaled d.digits .ten d.exponent
  let gap := if b.narrowBelow then 1 else 2
  let below := Fraction.scaled (4 * b.mantissa - gap) .two (b.exponent - 2)
  let above := Fraction.scaled (4 * b.mantissa + 2) .two (b.exponent - 2)
  let tied := b.mantissa % 2 == 0
  let overLow := match below.cmp x with
    | .lt => true
    | .eq => tied
    | .gt => false
  let underHigh := match x.cmp above with
    | .lt => true
    | .eq => tied
    | .gt => false
  overLow && underHigh

/-- The least `k` for which a positive value is below `10 ^ k`. -/
def magnitude (b : Binary) : Int :=
  let x := b.value
  if x.den ≤ x.num then digitCount x.floor
  else 1 - digitCount ((x.den - 1) / x.num)

/-- The neighbour of the value on a decimal grid that rounds to it, if one does; the nearer of two.
-/
def onGrid? (b : Binary) (exponent : Int) : Option Scientific :=
  let low := (b.value.unscaled .ten exponent).floor
  let lowReads := b.readsBack ⟨low, exponent⟩
  let highReads := b.readsBack ⟨low + 1, exponent⟩
  -- the value lies nearer to the lower one when it is below the middle of the two
  let nearLow := b.value.cmp (.scaled (10 * low + 5) .ten (exponent - 1)) == .lt
  if lowReads && (nearLow || !highReads) then some ⟨low, exponent⟩
  else if highReads then some ⟨low + 1, exponent⟩
  else none

/-- The shortest decimal that rounds to a value. Only a neighbour carried up to the next power of
ten can end in a zero. Without any neighbour, which does not happen, the whole part stands in. -/
def shortest (b : Binary) : Scientific :=
  if b.mantissa = 0 then ⟨0, 0⟩
  else
    let k := b.magnitude
    let found := (List.range 17).findSome? fun (n : Nat) => b.onGrid? (k - (n + 1))
    (found.getD ⟨b.value.floor, 0⟩).trim

/-- The shortest decimal written with a point and without an exponent. -/
def positional (b : Binary) : String :=
  let d := b.shortest
  let digits := Nat.toDigits 10 d.digits
  match d.exponent with
  | .ofNat e => String.ofList (digits ++ List.replicate e '0' ++ ['.', '0'])
  | .negSucc e =>
    let places := e + 1
    let padded := List.replicate (places + 1 - digits.length) '0' ++ digits
    let whole := padded.length - places
    String.ofList (padded.take whole ++ '.' :: padded.drop whole)

end Binary

end Hygiene.Decimal
