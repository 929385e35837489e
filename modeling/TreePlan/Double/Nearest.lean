import TreePlan.Double.Basic

/-!
The double nearest to a decimal fraction, a tie going to the even significand. Computed exactly, on
the quotient of two natural numbers.
-/

namespace TreePlan

/-- The whole number nearest to a quotient, a half going to the even one. -/
def roundHalfEven (num den : Nat) : Nat :=
  let q := num / den
  let r := num % den
  if 2 * r < den then q
  else if den < 2 * r then q + 1
  else if q % 2 = 0 then q else q + 1

namespace Double

/-- Scales a quotient by a power of two. -/
def scaled (num den : Nat) (q : Int) : Nat × Nat :=
  if 0 ≤ q then (num, den * Nat.pow 2 q.toNat) else (num * Nat.pow 2 (-q).toNat, den)

/-- The power of two at which a positive quotient has 53 digits in base two, at least the least. -/
def gridExponent (num den : Nat) : Int :=
  let guess : Int := (num.log2 : Int) - den.log2 - 52
  let s := scaled num den guess
  max (-1074) (if s.1 < s.2 * leadingBit then guess - 1 else guess)

/-- The bits of the double nearest to a positive quotient. -/
def nearestBits (num den : Nat) : Nat :=
  let q := gridExponent num den
  let s := scaled num den q
  min infinityBits ((q + 1074).toNat * leadingBit + roundHalfEven s.1 s.2)

/-- How many digits a positive number has in base ten. -/
def decimalDigits (n : Nat) : Nat := if n < 10 then 1 else decimalDigits (n / 10) + 1

/-- The double nearest to `mantissa * 10 ^ exponent`. Past the largest and below the least of them
the powers need not be computed. -/
def ofDecimal (negative : Bool) (mantissa : Nat) (exponent : Int) : Double :=
  let size := exponent + decimalDigits mantissa
  let bits :=
    if mantissa = 0 ∨ size < -330 then 0
    else if 310 < size then infinityBits
    else if 0 ≤ exponent then nearestBits (mantissa * Nat.pow 10 exponent.toNat) 1
    else nearestBits mantissa (Nat.pow 10 (-exponent).toNat)
  ⟨UInt64.ofNat (bits + if negative then signBit else 0)⟩

end Double

end TreePlan
