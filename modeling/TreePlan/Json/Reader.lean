import TreePlan.Double.Nearest
import TreePlan.Text.Numeral
import TreePlan.Value

/-!
Reading JSON. Each reader takes a text and returns what it read with the text left over; the first
character that cannot go on decides the fault. Beyond the standard, `NaN`, `Infinity` and
`-Infinity` are numbers and a lone surrogate may be escaped. Two escapes that follow each other and
name a high and a low surrogate are one character. Values nest to any depth: the limit that an
interpreter has for its own recursion is none of the format's and is left out.
-/

namespace TreePlan.Json

inductive Fault where
  | expectingName
  | expectingColon
  | expectingComma
  | expectingValue
  | extraData
  | unterminatedString
  | controlCharacter
  | invalidEscape
  | invalidUnicodeEscape
  | byteOrderMark
  | integerTooLong (digits : Nat)
deriving DecidableEq, Repr

def Fault.message : Fault → Text
  | .expectingName => "Expecting property name enclosed in double quotes"
  | .expectingColon => "Expecting ':' delimiter"
  | .expectingComma => "Expecting ',' delimiter"
  | .expectingValue => "Expecting value"
  | .extraData => "Extra data"
  | .unterminatedString => "Unterminated string starting at"
  | .controlCharacter => "Invalid control character at"
  | .invalidEscape => "Invalid \\escape"
  | .invalidUnicodeEscape => "Invalid \\uXXXX escape"
  | .byteOrderMark => "Unexpected UTF-8 BOM (decode using utf-8-sig)"
  | .integerTooLong n =>
    "Exceeds the limit (4300 digits) for integer string conversion: value has " ++ Text.ofNat n
      ++ " digits; use sys.set_int_max_str_digits() to increase the limit"

def isBlank (c : CodePoint) : Bool := c = ' ' || c = '\t' || c = '\n' || c = '\r'

def skipBlanks (s : Text) : Text := s.dropWhile isBlank

/-- A character of a string: written as itself or by a short escape, or by its number. -/
inductive Piece where
  | plain (c : CodePoint)
  | numbered (c : CodePoint)
deriving DecidableEq, Repr

/-- Surrogates written by number, a high one directly before a low one, make one character. -/
def Piece.join : List Piece → Text
  | [] => []
  | .plain c :: r => c :: join r
  | .numbered c :: r =>
    match r with
    | .numbered d :: r' =>
      if c.isHighSurrogate && d.isLowSurrogate then CodePoint.ofSurrogates c d :: join r'
      else c :: join (.numbered d :: r')
    | r => c :: join r

def shortEscape? (c : CodePoint) : Option CodePoint :=
  if c = '"' ∨ c = '\\' ∨ c = '/' then some c
  else if c = 'b' then some (CodePoint.ofNat 8)
  else if c = 'f' then some (CodePoint.ofNat 12)
  else if c = 'n' then some '\n'
  else if c = 'r' then some '\r'
  else if c = 't' then some '\t'
  else none

def unit? (a b c d : CodePoint) : Option CodePoint := do
  return CodePoint.ofNat
    ((((← a.hexDigit?) * 16 + (← b.hexDigit?)) * 16 + (← c.hexDigit?)) * 16 + (← d.hexDigit?))

/-- The characters of a string after its opening quote, up to and without the closing one. A
numbered escape at the very end of the text is no escape. -/
def readPieces : Text → Except Fault (List Piece × Text)
  | [] => .error .unterminatedString
  | c :: r =>
    if c = '"' then .ok ([], r)
    else if c.val < 0x20 then .error .controlCharacter
    else if c = '\\' then
      match r with
      | [] => .error .unterminatedString
      | e :: r₁ =>
        if e = 'u' then
          match r₁ with
          | h₁ :: h₂ :: h₃ :: h₄ :: r₂ =>
            if r₂.isEmpty then .error .invalidUnicodeEscape
            else
              match unit? h₁ h₂ h₃ h₄ with
              | none => .error .invalidUnicodeEscape
              | some u => (readPieces r₂).map fun p => (.numbered u :: p.1, p.2)
          | _ => .error .invalidUnicodeEscape
        else
          match shortEscape? e with
          | none => .error .invalidEscape
          | some k => (readPieces r₁).map fun p => (.plain k :: p.1, p.2)
    else (readPieces r).map fun p => (.plain c :: p.1, p.2)

def readString (s : Text) : Except Fault (Text × Text) :=
  (readPieces s).map fun p => (Piece.join p.1, p.2)

/-- The whole part of a number: a zero, or digits that start with another. -/
def wholePart? (s : Text) : Option (Text × Text) :=
  match s with
  | [] => none
  | c :: r =>
    if c = '0' then some ([c], r)
    else if c.isAsciiDigit then some (s.takeWhile (·.isAsciiDigit), s.dropWhile (·.isAsciiDigit))
    else none

/-- The digits after a point, of which there is at least one, else the text as it was. -/
def fractionPart (s : Text) : Text × Text :=
  match s with
  | p :: d :: r =>
    if p = '.' ∧ d.isAsciiDigit then
      ((d :: r).takeWhile (·.isAsciiDigit), (d :: r).dropWhile (·.isAsciiDigit))
    else ([], s)
  | _ => ([], s)

/-- An exponent with its sign and at least one digit, else the text as it was. -/
def exponentPart (s : Text) : Option Int × Text :=
  match s with
  | e :: r =>
    if e = 'e' ∨ e = 'E' then
      let negative := r.head? = some (CodePoint.ofChar '-')
      let signed := negative || r.head? = some (CodePoint.ofChar '+')
      let r := if signed then r.drop 1 else r
      let digits := r.takeWhile (·.isAsciiDigit)
      if digits.isEmpty then (none, s)
      else
        let n := Text.valueOf 10 digits
        (some (if negative then -(n : Int) else n), r.dropWhile (·.isAsciiDigit))
    else (none, s)
  | [] => (none, s)

def readNumber (s : Text) : Except Fault (Value × Text) :=
  let negative := s.head? = some (CodePoint.ofChar '-')
  match wholePart? (if negative then s.drop 1 else s) with
  | none => .error .expectingValue
  | some (whole, s) =>
    let (fraction, s) := fractionPart s
    let (exponent, s) := exponentPart s
    if fraction.isEmpty && exponent.isNone then
      if Numeral.digitLimit < whole.length then .error (.integerTooLong whole.length)
      else
        let n : Int := Text.valueOf 10 whole
        .ok (.int (if negative then -n else n), s)
    else
      let mantissa := Text.valueOf 10 (whole ++ fraction)
      .ok (.float (.ofDecimal negative mantissa (exponent.getD 0 - fraction.length)), s)

/-- The words that stand for values. -/
def words : List (Text × Value) :=
  [("null", .null), ("true", .bool true), ("false", .bool false), ("NaN", .float .nan),
    ("Infinity", .float (.infinity false)), ("-Infinity", .float (.infinity true))]

def readWord? (s : Text) : Option (Value × Text) :=
  words.findSome? fun w => (w.1.after? s).map fun r => (w.2, r)

def closes? (bracket : CodePoint) (s : Text) : Option Text :=
  match s with
  | c :: r => if c = bracket then some r else none
  | [] => none

mutual

/-- The first argument bounds the depth of the calls; the length of the text is enough. -/
def readValue : Nat → Text → Except Fault (Value × Text)
  | 0, _ => .error .expectingValue
  | _, [] => .error .expectingValue
  | depth + 1, c :: r =>
    if c = '"' then (readString r).map fun p => (.text p.1, p.2)
    else if c = '\x7b' then
      match closes? '\x7d' (skipBlanks r) with
      | some r => .ok (.map [], r)
      | none => (readMembers depth (skipBlanks r)).map fun p => (.map (Fields.ofList p.1), p.2)
    else if c = '[' then
      match closes? ']' (skipBlanks r) with
      | some r => .ok (.list [], r)
      | none => (readItems depth (skipBlanks r)).map fun p => (.list p.1, p.2)
    else
      match readWord? (c :: r) with
      | some p => .ok p
      | none => readNumber (c :: r)

/-- The members of an object after its opening brace, through the closing one. -/
def readMembers : Nat → Text → Except Fault (List (Text × Value) × Text)
  | depth + 1, c :: r =>
    if c = '"' then do
      let (key, r) ← readString r
      match skipBlanks r with
      | [] => .error .expectingColon
      | colon :: r =>
        if colon = ':' then do
          let (value, r) ← readValue depth (skipBlanks r)
          match skipBlanks r with
          | [] => .error .expectingComma
          | d :: r =>
            if d = '\x7d' then .ok ([(key, value)], r)
            else if d = ',' then
              (readMembers depth (skipBlanks r)).map fun p => ((key, value) :: p.1, p.2)
            else .error .expectingComma
        else .error .expectingColon
    else .error .expectingName
  | _, _ => .error .expectingName

/-- The items of an array after its opening bracket, through the closing one. -/
def readItems : Nat → Text → Except Fault (List Value × Text)
  | 0, _ => .error .expectingValue
  | depth + 1, s => do
    let (value, r) ← readValue depth s
    match skipBlanks r with
    | [] => .error .expectingComma
    | d :: r =>
      if d = ']' then .ok ([value], r)
      else if d = ',' then (readItems depth (skipBlanks r)).map fun p => (value :: p.1, p.2)
      else .error .expectingComma

end

/-- A text that is one JSON value with blanks around it. -/
def read (s : Text) : Except Fault Value :=
  if s.head? = some (CodePoint.ofNat 0xFEFF) then .error .byteOrderMark
  else do
    let (value, r) ← readValue (2 * s.length + 1) (skipBlanks s)
    if (skipBlanks r).isEmpty then .ok value else .error .extraData

end TreePlan.Json
