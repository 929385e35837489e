import TreePlan.Text.Numeral

/-!
UTF-8. Encoding refuses surrogates. Decoding reports the first bytes that start no character, how many
of them belong together and why. File names take any bytes: there a byte that does not decode is the
low surrogate that holds its number, and that surrogate encodes to the byte again.
-/

namespace TreePlan.Utf8

/-- One to four bytes by the size of the number. -/
def bytesOf (n : Nat) : Bytes :=
  if n < 0x80 then [UInt8.ofNat n]
  else if n < 0x800 then [UInt8.ofNat (0xC0 + n / 0x40), UInt8.ofNat (0x80 + n % 0x40)]
  else if n < 0x10000 then
    [UInt8.ofNat (0xE0 + n / 0x1000), UInt8.ofNat (0x80 + n / 0x40 % 0x40),
      UInt8.ofNat (0x80 + n % 0x40)]
  else
    [UInt8.ofNat (0xF0 + n / 0x40000), UInt8.ofNat (0x80 + n / 0x1000 % 0x40),
      UInt8.ofNat (0x80 + n / 0x40 % 0x40), UInt8.ofNat (0x80 + n % 0x40)]

def encode? (c : CodePoint) : Option Bytes := if c.isSurrogate then none else some (bytesOf c.val)

inductive Defect where
  | invalidStart
  | invalidContinuation
  | unexpectedEnd
deriving DecidableEq, Repr

/-- The bytes from `start` up to and without `stop` make no character; `first` is the first. -/
structure DecodingFault where
  first : UInt8
  start : Nat
  stop : Nat
  defect : Defect
deriving DecidableEq, Repr

def Defect.message : Defect → Text
  | .invalidStart => "invalid start byte"
  | .invalidContinuation => "invalid continuation byte"
  | .unexpectedEnd => "unexpected end of data"

def DecodingFault.message (f : DecodingFault) : Text :=
  "'utf-8' codec can't decode " ++
    (if f.stop = f.start + 1 then
      "byte 0x" ++ Text.hex 2 f.first.toNat ++ " in position " ++ Text.ofNat f.start
    else "bytes in position " ++ Text.ofNat f.start ++ "-" ++ Text.ofNat (f.stop - 1))
    ++ ": " ++ f.defect.message

/-- What a text begins with: a character of some bytes, or some bytes that make none. -/
inductive Step where
  | char (c : CodePoint) (size : Nat)
  | bad (size : Nat) (defect : Defect)

def isContinuation (b : UInt8) : Bool := 0x80 ≤ b && b < 0xC0

/-- The least and the last second byte after a first byte of three or four. -/
def secondRange (a : UInt8) : UInt8 × UInt8 :=
  if a = 0xE0 then (0xA0, 0xBF) else if a = 0xED then (0x80, 0x9F)
  else if a = 0xF0 then (0x90, 0xBF) else if a = 0xF4 then (0x80, 0x8F) else (0x80, 0xBF)

def isSecond (a b : UInt8) : Bool := (secondRange a).1 ≤ b && b ≤ (secondRange a).2

def low6 (b : UInt8) : Nat := b.toNat % 0x40

def step2 (a : UInt8) : Bytes → Step
  | [] => .bad 1 .unexpectedEnd
  | b :: _ =>
    if isContinuation b then .char (CodePoint.ofNat (a.toNat % 0x20 * 0x40 + low6 b)) 2
    else .bad 1 .invalidContinuation

def step3 (a : UInt8) : Bytes → Step
  | [] => .bad 1 .unexpectedEnd
  | [b] => if isSecond a b then .bad 2 .unexpectedEnd else .bad 1 .invalidContinuation
  | b :: c :: _ =>
    if !isSecond a b then .bad 1 .invalidContinuation
    else if !isContinuation c then .bad 2 .invalidContinuation
    else .char (CodePoint.ofNat (a.toNat % 0x10 * 0x1000 + low6 b * 0x40 + low6 c)) 3

def step4 (a : UInt8) : Bytes → Step
  | [] => .bad 1 .unexpectedEnd
  | [b] => if isSecond a b then .bad 2 .unexpectedEnd else .bad 1 .invalidContinuation
  | [b, c] =>
    if !isSecond a b then .bad 1 .invalidContinuation
    else if !isContinuation c then .bad 2 .invalidContinuation
    else .bad 3 .unexpectedEnd
  | b :: c :: d :: _ =>
    if !isSecond a b then .bad 1 .invalidContinuation
    else if !isContinuation c then .bad 2 .invalidContinuation
    else if !isContinuation d then .bad 3 .invalidContinuation
    else
      .char (CodePoint.ofNat
        (a.toNat % 0x08 * 0x40000 + low6 b * 0x1000 + low6 c * 0x40 + low6 d)) 4

def step (a : UInt8) (r : Bytes) : Step :=
  if a < 0x80 then .char (CodePoint.ofNat a.toNat) 1
  else if a < 0xC2 then .bad 1 .invalidStart
  else if a < 0xE0 then step2 a r
  else if a < 0xF0 then step3 a r
  else if a < 0xF5 then step4 a r
  else .bad 1 .invalidStart

/-- The characters up to the first fault, if there is one, in bytes that begin at a position. -/
def decodeFrom (position : Nat) : Bytes → Text × Option DecodingFault
  | [] => ([], none)
  | a :: r =>
    match step a r with
    | .bad n defect => ([], some ⟨a, position, position + n, defect⟩)
    | .char c n =>
      let rest := decodeFrom (position + n) (r.drop (n - 1))
      (c :: rest.1, rest.2)
termination_by b => b.length
decreasing_by simp only [List.length_cons, List.length_drop]; omega

def decode (b : Bytes) : Except DecodingFault Text :=
  match decodeFrom 0 b with
  | (t, none) => .ok t
  | (_, some fault) => .error fault

/-- How many bytes of a file are read at a time. -/
def pieceSize : Nat := 8192

/-- The first two bytes of a surrogate. That they are wrong counts only once the third is there. -/
def isHalfSurrogate : Bytes → Bool
  | [a, b] => a = 0xED && 0xA0 ≤ b && b < 0xC0
  | _ => false

/-- Bytes at the end of a piece that the next piece may complete. -/
def waits (f : DecodingFault) (piece : Bytes) : Bool :=
  f.defect = .unexpectedEnd || isHalfSurrogate (piece.drop f.start)

/-- Decodes a file piece by piece; a piece with a fault in it adds nothing. A character may be cut by
the end of a piece; positions count from the piece's start or from the start of the character cut
before it. -/
def decodePieces (pending : Bytes) (b : Bytes) : Text × Option DecodingFault :=
  let piece := pending ++ b.take pieceSize
  let head := decodeFrom 0 piece
  if _h : b.length = 0 then head
  else
    let next := b.drop pieceSize
    match head.2 with
    | none =>
      let rest := decodePieces [] next
      (head.1 ++ rest.1, rest.2)
    | some f =>
      if waits f piece then
        let rest := decodePieces (piece.drop f.start) next
        (head.1 ++ rest.1, rest.2)
      else ([], some f)
termination_by b.length
decreasing_by
  · simp only [pieceSize, List.length_drop]; omega
  · simp only [pieceSize, List.length_drop]; omega

/-- File names: what does not decode stays as a surrogate that holds the byte. -/
def decodeName : Bytes → Text
  | [] => []
  | a :: r =>
    match step a r with
    | .bad _ _ => CodePoint.ofNat (0xDC00 + a.toNat) :: decodeName r
    | .char c n => c :: decodeName (r.drop (n - 1))
termination_by b => b.length
decreasing_by
  · simp
  · simp only [List.length_cons, List.length_drop]; omega

/-- A surrogate that holds a byte from `0x80` on. -/
def holdsByte (c : CodePoint) : Bool := 0xDC80 ≤ c.val && c.val ≤ 0xDCFF

def encodeNameChar (c : CodePoint) : Bytes :=
  if holdsByte c then [UInt8.ofNat (c.val - 0xDC00)] else bytesOf c.val

/-- The surrogates in a row that contain the first one that holds no byte, from that one on: their
first and the positions around them. -/
def nameFault? (t : Text) : Option (CodePoint × Nat × Nat) :=
  match t.dropWhile fun c => !c.isSurrogate || holdsByte c with
  | [] => none
  | c :: r =>
    let start := t.length - (r.length + 1)
    some (c, start, start + 1 + (r.takeWhile CodePoint.isSurrogate).length)

def encodeName (t : Text) : Bytes := t.flatMap encodeNameChar

end TreePlan.Utf8
