/-! The binary floating-point number nearest to a decimal one. The quotient is
rounded in exact arithmetic, and a tie goes to the even neighbour. -/

namespace ImportAtlas
namespace Number

/-- The quotient rounded to the nearest whole number, a tie to the even one. -/
def roundedQuotient (numerator denominator : Nat) : Nat :=
  let quotient := numerator / denominator
  let twice := 2 * (numerator % denominator)
  if denominator < twice then quotient + 1
  else if twice = denominator then quotient + quotient % 2
  else quotient

/-- The number with a significand of 53 bits nearest to a whole number. -/
def rounded (n : Nat) : Nat :=
  let unit := Nat.pow 2 (n.log2 - 52)
  roundedQuotient n unit * unit

/-- Whether a whole number times a power of ten overflows in floating point. Both
factors are rounded before they are multiplied, so a product close to the limit may
fall on its other side. -/
def overflows (digits exponent : Nat) : Bool :=
  digits != 0 && (308 < exponent ||
    Nat.pow 2 1024 ≤ rounded (rounded digits * rounded (Nat.pow 10 exponent)))

/-- The bits of positive infinity. -/
def infinityBits : Nat :=
  0x7FF0000000000000

/-- The least exponent of a unit in the last place, negated. -/
def leastExponent : Nat :=
  1074

/-- A fraction scaled by a power of two, still as numerator and denominator. -/
def scaled (numerator denominator : Nat) (exponent : Int) : Nat × Nat :=
  if exponent < 0 then (numerator * Nat.pow 2 exponent.natAbs, denominator)
  else (numerator, denominator * Nat.pow 2 exponent.natAbs)

/-- The exponent of the unit in the last place of the number nearest to a
positive fraction: the significand has 53 bits, unless that would take the
exponent below the least one. -/
def unitExponent (numerator denominator : Nat) : Int :=
  let guess : Int := (numerator.log2 : Int) - denominator.log2 - 52
  let (n, d) := scaled numerator denominator guess
  let exact := if n < d * Nat.pow 2 52 then guess - 1 else guess
  max exact (-leastExponent)

/-- The bits of the floating-point number nearest to a positive fraction. -/
def nearestBits (numerator denominator : Nat) : Nat :=
  let unit := unitExponent numerator denominator
  let (n, d) := scaled numerator denominator unit
  min infinityBits ((unit + leastExponent).toNat * Nat.pow 2 52 + roundedQuotient n d)

/-- The bits of the floating-point number nearest to `digits` times a power of
ten. A number far beyond the range is infinite or zero, whatever its digits. -/
def decimalBits (digits : Nat) (exponent : Int) : Nat :=
  let magnitude : Int := (Nat.toDigits 10 digits).length + exponent
  if digits = 0 then 0
  else if 310 < magnitude then infinityBits
  else if magnitude < -330 then 0
  else if exponent < 0 then nearestBits digits (Nat.pow 10 exponent.natAbs)
  else nearestBits (digits * Nat.pow 10 exponent.natAbs) 1

end Number
end ImportAtlas
