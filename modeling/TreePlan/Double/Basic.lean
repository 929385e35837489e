/-!
Binary floating point numbers of 64 bits, kept as their bits so that equality is decidable and two
numbers are equal only when they are the same number.
-/

namespace TreePlan

structure Double where
  bits : UInt64
deriving DecidableEq, Repr

namespace Double

def signBit : Nat := 0x8000000000000000

/-- The least significand of a number that is not subnormal: 53 digits in base two. -/
def leadingBit : Nat := 0x10000000000000

def infinityBits : Nat := 0x7FF * leadingBit

def nan : Double := ⟨0x7FF8000000000000⟩

def infinity (negative : Bool) : Double :=
  ⟨UInt64.ofNat (infinityBits + if negative then signBit else 0)⟩

def isNegative (x : Double) : Bool := signBit ≤ x.bits.toNat

/-- The bits without the sign. -/
def magnitude (x : Double) : Nat := x.bits.toNat % signBit

def isNaN (x : Double) : Bool := infinityBits < x.magnitude

def isInfinite (x : Double) : Bool := x.magnitude == infinityBits

/-- A finite number is its significand times a power of two, the sign aside. -/
def significand (x : Double) : Nat :=
  let fraction := x.magnitude % leadingBit
  if x.magnitude < leadingBit then fraction else leadingBit + fraction

def exponent (x : Double) : Int :=
  let field : Nat := x.magnitude / leadingBit
  if field = 0 then -1074 else Int.ofNat field - 1075

end Double

end TreePlan
