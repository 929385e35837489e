import TreePlan.Text.Blank
import TreePlan.Text.Digit

/-!
Whole numbers as text. Written in base ten with the digits `0` to `9`; read with the digits of any
script, single underscores between digits, a sign and blanks around.
-/

namespace TreePlan

namespace Text

def digitChar (n : Nat) : CodePoint := CodePoint.ofNat (if n < 10 then 0x30 + n else 0x57 + n)

/-- The digits in a base, most significant first; no digits for zero. -/
def positional (base : Nat) (n : Nat) (acc : Text) : Text :=
  if _h : n = 0 ∨ base < 2 then acc
  else positional base (n / base) (digitChar (n % base) :: acc)
termination_by n
decreasing_by exact Nat.div_lt_self (by omega) (by omega)

def ofNat (n : Nat) : Text := if n = 0 then ['0'] else positional 10 n []

def ofInt : Int → Text
  | .ofNat n => ofNat n
  | .negSucc n => '-' :: ofNat (n + 1)

/-- At least `width` digits in a base. -/
def padded (base width n : Nat) : Text :=
  let digits := positional base n []
  List.replicate (width - digits.length) (CodePoint.ofChar '0') ++ digits

def hex (width n : Nat) : Text := padded 16 width n

def octal (width n : Nat) : Text := padded 8 width n

/-- The value of digits in a base; what is no digit counts as zero. -/
def valueOf (base : Nat) (digits : Text) : Nat :=
  digits.foldl (fun n c => n * base + c.hexDigit?.getD 0) 0

end Text

namespace Numeral

/-- A numeral with more digits than this is refused. -/
def digitLimit : Nat := 4300

inductive Fault where
  | tooLong (digits : Nat)
  | malformed
deriving DecidableEq, Repr

/-- White space as numerals know it: below `0x80` only the space, the tab and the line breaks. -/
def isPadding (c : CodePoint) : Bool := c.isBlank && !(0x1C ≤ c.val && c.val ≤ 0x1F)

def trim (t : Text) : Text := ((t.dropWhile isPadding).reverse.dropWhile isPadding).reverse

def hasDoubleUnderscore : Text → Bool
  | c :: d :: r => (c = '_' && d = '_') || hasDoubleUnderscore (d :: r)
  | _ => false

def readNat (t : Text) : Except Fault Nat :=
  let inNumeral := fun c : CodePoint => c.isDecimal || c = '_'
  let run := t.takeWhile inNumeral
  let digits := run.filterMap CodePoint.decimal?
  if run.isEmpty || run.head? = some '_' || run.getLast? = some '_' || hasDoubleUnderscore run then
    .error .malformed
  else if digitLimit < digits.length then .error (.tooLong digits.length)
  else if run.length < t.length then .error .malformed
  else .ok (digits.foldl (fun n d => n * 10 + d) 0)

def readInt (t : Text) : Except Fault Int :=
  match trim t with
  | [] => .error .malformed
  | c :: r =>
    if c = '-' then (readNat r).map fun n => -(n : Int)
    else if c = '+' then (readNat r).map Int.ofNat
    else (readNat (c :: r)).map Int.ofNat

end Numeral

end TreePlan
