import TreePlan.Double.Basic
import TreePlan.Text.Numeral

/-!
The shortest decimal text of a double: the fewest digits that read back to the same number, and of
those the nearest. Numbers from `1e-4` up to `1e16` are written positionally, with `.0` where they
are whole; the others with an exponent of a sign and at least two digits.
-/

namespace TreePlan.Double

/-- A positive number `digits * 10 ^ exponent`. -/
structure Decimal where
  digits : Nat
  exponent : Int
deriving DecidableEq, Repr

/-- The quotient that a power of a base times a number is. -/
def quotient (n : Nat) (base : Nat) (e : Int) : Nat × Nat :=
  if 0 ≤ e then (n * base.pow e.toNat, 1) else (n, base.pow (-e).toNat)

/-- Compares two quotients. -/
def quotientLt (a b : Nat × Nat) : Bool := a.1 * b.2 < b.1 * a.2

/-- The numbers that read back as the given one lie between these two. The upper gap is the distance
to the next double; below a power of two the lower gap is half as wide. Both are in quarters. -/
def readsBack (x : Double) (d : Decimal) : Bool :=
  let m := x.significand
  let e := x.exponent
  let low := quotient (4 * m - if m = leadingBit ∧ -1074 < e then 1 else 2) 2 (e - 2)
  let high := quotient (4 * m + 2) 2 (e - 2)
  let v := quotient d.digits 10 d.exponent
  if m % 2 = 0 then !quotientLt v low && !quotientLt high v
  else quotientLt low v && quotientLt v high

/-- The least `k` up to a bound with `den ≤ num * 10 ^ k`. -/
def leadingZeros (num den : Nat) : Nat → Nat
  | 0 => 0
  | bound + 1 => if den ≤ num then 0 else leadingZeros (num * 10) den bound + 1

/-- The power of ten of the first digit of a positive quotient. -/
def firstDigitExponent (num den : Nat) : Int :=
  if den ≤ num then (Text.positional 10 (num / den) []).length - 1
  else -(leadingZeros num den 400 : Int)

def candidate (x : Double) (exponent : Int) : Option Decimal :=
  let v := quotient x.significand 2 x.exponent
  let scaled := if 0 ≤ exponent then (v.1, v.2 * Nat.pow 10 exponent.toNat)
    else (v.1 * Nat.pow 10 (-exponent).toNat, v.2)
  let below : Decimal := ⟨scaled.1 / scaled.2, exponent⟩
  let above : Decimal := ⟨scaled.1 / scaled.2 + 1, exponent⟩
  let remainder := scaled.1 % scaled.2
  match readsBack x below && below.digits != 0, readsBack x above with
  | true, true =>
    if 2 * remainder < scaled.2 ∨ (2 * remainder = scaled.2 ∧ below.digits % 2 = 0) then some below
    else some above
  | true, false => some below
  | false, true => some above
  | false, false => none

/-- The first of the grids from `first` to `first - 17` that has a number which reads back. -/
def shortestFrom (x : Double) (first : Int) : Nat → Decimal
  | 0 => ⟨x.significand, 0⟩
  | n + 1 =>
    match candidate x first with
    | some d => d
    | none => shortestFrom x (first - 1) n

/-- The shortest decimal of a finite positive number. -/
def shortest (x : Double) : Decimal :=
  let v := quotient x.significand 2 x.exponent
  shortestFrom x (firstDigitExponent v.1 v.2) 18

def dropTrailingZeros (digits : Text) : Text :=
  (digits.reverse.dropWhile fun c : CodePoint => c = '0').reverse

def zeros (n : Int) : Text := List.replicate n.toNat (CodePoint.ofChar '0')

/-- Lays out digits whose first has the weight `10 ^ lead`. -/
def layOut (digits : Text) (lead : Int) : Text :=
  let n : Int := digits.length
  if -4 ≤ lead ∧ lead < 16 then
    if lead < 0 then "0." ++ zeros (-lead - 1) ++ digits
    else if n ≤ lead + 1 then digits ++ zeros (lead + 1 - n) ++ ".0"
    else digits.take (lead + 1).toNat ++ "." ++ digits.drop (lead + 1).toNat
  else
    let fraction : Text := if digits.length = 1 then [] else "." ++ digits.drop 1
    let exponent := Text.padded 10 2 lead.natAbs
    digits.take 1 ++ fraction ++ (if lead < 0 then "e-" else "e+") ++ exponent

def finiteText (x : Double) : Text :=
  if x.magnitude = 0 then "0.0"
  else
    let d := x.shortest
    let digits := Text.ofNat d.digits
    layOut (dropTrailingZeros digits) (d.exponent + digits.length - 1)

end TreePlan.Double
