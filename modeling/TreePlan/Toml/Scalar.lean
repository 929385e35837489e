import TreePlan.Double.Nearest
import TreePlan.Text.Numeral
import TreePlan.Value

/-!
Numbers, dates and times of TOML. Each reader takes the longest beginning of a text that has its form
and leaves the rest; what may follow is for the caller to say.
-/

namespace TreePlan.Toml

inductive Fault where
  | malformed
  | integerTooLong (digits : Nat)
deriving DecidableEq, Repr

/-- Digits, with single underscores between them; the underscores are left out. -/
def moreDigits (isDigit : CodePoint → Bool) : Text → Text × Text
  | [] => ([], [])
  | c :: r =>
    if isDigit c then
      let rest := moreDigits isDigit r
      (c :: rest.1, rest.2)
    else if c = '_' then
      match r with
      | d :: r' =>
        if isDigit d then
          let rest := moreDigits isDigit r'
          (d :: rest.1, rest.2)
        else ([], c :: r)
      | [] => ([], [c])
    else ([], c :: r)

def digits? (isDigit : CodePoint → Bool) : Text → Option (Text × Text)
  | c :: r =>
    if isDigit c then
      let rest := moreDigits isDigit r
      some (c :: rest.1, rest.2)
    else none
  | [] => none

def isDigit (c : CodePoint) : Bool := c.isAsciiDigit

def isBelow (base : Nat) (c : CodePoint) : Bool := c.hexDigit?.any fun d => d < base

def radixPrefixes : List (Text × Nat) := [("0x", 16), ("0b", 2), ("0o", 8)]

def readRadix? (s : Text) : Option (Value × Text) :=
  radixPrefixes.findSome? fun p => do
    let r ← p.1.after? s
    let (digits, r) ← digits? (isBelow p.2) r
    return (.int (Text.valueOf p.2 digits), r)

/-- A sign, if there is one: whether it is a minus, and the rest. -/
def readSign (s : Text) : Bool × Text :=
  match s with
  | c :: r => if c = '-' then (true, r) else if c = '+' then (false, r) else (false, s)
  | [] => (false, [])

def readWhole? (s : Text) : Option (Text × Text) :=
  match s with
  | c :: r => if c = '0' then some ([c], r) else digits? isDigit s
  | [] => none

def readFraction (s : Text) : Option Text × Text :=
  match (Text.after? "." s).bind (digits? isDigit) with
  | some (digits, r) => (some digits, r)
  | none => (none, s)

def readExponent (s : Text) : Option Int × Text :=
  match s with
  | c :: r =>
    if c = 'e' ∨ c = 'E' then
      let (negative, r) := readSign r
      match digits? isDigit r with
      | some (digits, r) =>
        let n : Int := Text.valueOf 10 digits
        (some (if negative then -n else n), r)
      | none => (none, s)
    else (none, s)
  | [] => (none, [])

def readDecimal? (s : Text) : Option (Except Fault Value × Text) := do
  let (negative, r) := readSign s
  let (whole, r) ← readWhole? r
  let (fraction, r) := readFraction r
  let (exponent, r) := readExponent r
  if fraction.isNone && exponent.isNone then
    let n : Int := Text.valueOf 10 whole
    if Numeral.digitLimit < whole.length then return (.error (.integerTooLong whole.length), r)
    else return (.ok (.int (if negative then -n else n)), r)
  else
    let fraction := fraction.getD []
    let mantissa := Text.valueOf 10 (whole ++ fraction)
    return (.ok (.float (.ofDecimal negative mantissa (exponent.getD 0 - fraction.length))), r)

def readNumber? (s : Text) : Option (Except Fault Value × Text) :=
  ((readRadix? s).map fun p => (.ok p.1, p.2)) <|> readDecimal? s

def specialFloats : List (Text × Double) :=
  [("inf", .infinity false), ("nan", .nan), ("-inf", .infinity true), ("+inf", .infinity false),
    ("-nan", .nan), ("+nan", .nan)]

def readSpecial? (s : Text) : Option (Value × Text) :=
  specialFloats.findSome? fun p => (p.1.after? s).map fun r => (.float p.2, r)

/-! ## Dates and times -/

/-- Exactly so many digits that make a number within bounds. -/
def field? (count low high : Nat) (s : Text) : Option (Nat × Text) :=
  let digits := s.take count
  let n := Text.valueOf 10 digits
  if digits.length = count ∧ digits.all isDigit ∧ low ≤ n ∧ n ≤ high then some (n, s.drop count)
  else none

def isLeap (year : Nat) : Bool := year % 4 == 0 && (year % 100 != 0 || year % 400 == 0)

def daysIn (year month : Nat) : Nat :=
  if month = 2 then (if isLeap year then 29 else 28)
  else if month = 4 ∨ month = 6 ∨ month = 9 ∨ month = 11 then 30
  else 31

/-- The form of a date, and whether there is such a day. -/
def date? (s : Text) : Option (Bool × Text) := do
  let (year, s) ← field? 4 0 9999 s
  let (month, s) ← (Text.after? "-" s).bind (field? 2 1 12)
  let (day, s) ← (Text.after? "-" s).bind (field? 2 1 31)
  return (1 ≤ year && day ≤ daysIn year month, s)

def secondFraction (s : Text) : Text :=
  match Text.after? "." s with
  | some (c :: r) => if isDigit c then r.dropWhile isDigit else s
  | _ => s

def time? (s : Text) : Option Text := do
  let (_, s) ← field? 2 0 23 s
  let (_, s) ← (Text.after? ":" s).bind (field? 2 0 59)
  let (_, s) ← (Text.after? ":" s).bind (field? 2 0 59)
  return secondFraction s

def offset? (s : Text) : Option Text :=
  match s with
  | c :: r =>
    if c = 'Z' ∨ c = 'z' then some r
    else if c = '+' ∨ c = '-' then do
      let (_, r) ← field? 2 0 23 r
      let (_, r) ← (Text.after? ":" r).bind (field? 2 0 59)
      return r
    else none
  | [] => none

/-- A time after a date, with an offset if it has one; else the text as it was. -/
def skipDayTime (s : Text) : Text :=
  match s with
  | c :: r =>
    if c = 'T' ∨ c = 't' ∨ c = ' ' then
      match time? r with
      | some r => (offset? r).getD r
      | none => s
    else s
  | [] => []

def readMoment? (s : Text) : Option (Except Fault Value × Text) :=
  match date? s with
  | some (valid, r) =>
    let r := skipDayTime r
    some (if valid then .ok (.moment (s.take (s.length - r.length))) else .error .malformed, r)
  | none => (time? s).map fun r => (.ok (.moment (s.take (s.length - r.length))), r)

end TreePlan.Toml
