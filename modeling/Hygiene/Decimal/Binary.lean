/-!
# Decimal fractions in binary64

`Fraction` is a non-negative rational as numerator and positive denominator, compared and rounded
exactly; its denominators come from powers of a `Base`, which is not zero.
`Binary.nearest` finds the binary64 value nearest to a decimal `digits * 10 ^ exponent`, ties to the
even mantissa, and fails where that value would be infinite. Decimals whose size alone settles the
answer are settled before any large power is computed.
-/

namespace Hygiene.Decimal

/-- A base to take powers of. -/
structure Base where
  value : Nat
  pos : 0 < value

namespace Base

def two : Base := ⟨2, Nat.two_pos⟩

def ten : Base := ⟨10, Nat.succ_pos 9⟩

def pow (base : Base) (e : Nat) : Nat := base.value.pow e

theorem pow_pos (base : Base) (e : Nat) : 0 < base.pow e := Nat.pow_pos base.pos

end Base

/-- A non-negative rational. -/
structure Fraction where
  num : Nat
  den : Nat
  den_pos : 0 < den

namespace Fraction

/-- `n * base ^ exponent`. -/
def scaled (n : Nat) (base : Base) (exponent : Int) : Fraction :=
  match exponent with
  | .ofNat e => ⟨n * base.pow e, 1, Nat.one_pos⟩
  | .negSucc e => ⟨n, base.pow (e + 1), base.pow_pos (e + 1)⟩

/-- `a / base ^ exponent`. -/
def unscaled (a : Fraction) (base : Base) (exponent : Int) : Fraction :=
  match exponent with
  | .ofNat e => ⟨a.num, a.den * base.pow e, Nat.mul_pos a.den_pos (base.pow_pos e)⟩
  | .negSucc e => ⟨a.num * base.pow (e + 1), a.den, a.den_pos⟩

/-- The order of two rationals, by cross-multiplication. -/
def cmp (a b : Fraction) : Ordering := compare (a.num * b.den) (b.num * a.den)

def floor (a : Fraction) : Nat := a.num / a.den

/-- The nearest whole number, a half going to the even neighbour. -/
def round (a : Fraction) : Nat :=
  let whole := a.floor
  match compare (2 * (a.num % a.den)) a.den with
  | .lt => whole
  | .gt => whole + 1
  | .eq => whole + whole % 2

end Fraction

def digitCount (n : Nat) : Nat := (Nat.toDigits 10 n).length

/-- A finite non-negative binary64 value, `mantissa * 2 ^ exponent`. -/
structure Binary where
  mantissa : Nat
  exponent : Int

namespace Binary

def minExponent : Int := -1074

def maxExponent : Int := 971

/-- Round a rational to 53 binary digits at the scale `exponent`, or at the next one if that leaves
a digit too many. -/
def roundAt (x : Fraction) (exponent : Int) : Binary :=
  let mantissa := (x.unscaled .two exponent).round
  if mantissa = Nat.pow 2 53 then ⟨Nat.pow 2 52, exponent + 1⟩ else ⟨mantissa, exponent⟩

/-- The scale at which a positive rational has 53 binary digits, or the smallest there is. -/
def scaleOf (x : Fraction) : Int :=
  let guess := (Nat.log2 x.num : Int) - Nat.log2 x.den - 52
  let short := (x.unscaled .two guess).floor < Nat.pow 2 52
  max minExponent (if short then guess - 1 else guess)

/-- The value nearest to `digits * 10 ^ exponent`, unless it is infinite. -/
def nearest (digits : Nat) (exponent : Int) : Option Binary :=
  let size := (digitCount digits : Int) + exponent
  if digits = 0 ∨ size < -330 then some ⟨0, minExponent⟩
  else if size > 310 then none
  else
    let x := Fraction.scaled digits .ten exponent
    let b := roundAt x (scaleOf x)
    if b.exponent > maxExponent then none else some b

def value (b : Binary) : Fraction := .scaled b.mantissa .two b.exponent

end Binary

end Hygiene.Decimal
