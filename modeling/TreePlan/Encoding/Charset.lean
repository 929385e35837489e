import TreePlan.Encoding.ShiftJis
import TreePlan.Encoding.SingleByte
import TreePlan.Encoding.Utf8
import TreePlan.Text.Quoted

/-!
Character sets: how the content of a file becomes bytes. Each character is encoded by itself, after a
mark where the set has one; the first that the set lacks is the fault.
-/

namespace TreePlan

inductive Charset where
  | utf8
  | utf8Marked
  | utf16
  | utf16Little
  | utf16Big
  | utf32
  | utf32Little
  | utf32Big
  | ascii
  | latin1
  | latin9
  | cp1252
  | koi8r
  | shiftJis
deriving DecidableEq, Repr

namespace Charset

def wide16 (n : Nat) : Bytes := [UInt8.ofNat (n % 0x100), UInt8.ofNat (n / 0x100)]

/-- The units of a character in the two-byte sets. -/
def units16 (n : Nat) : List Nat :=
  if n < 0x10000 then [n] else [0xD800 + (n - 0x10000) / 0x400, 0xDC00 + n % 0x400]

def wide32 (n : Nat) : Bytes := wide16 (n % 0x10000) ++ wide16 (n / 0x10000)

def encode16? (unit : Nat → Bytes) (c : CodePoint) : Option Bytes :=
  if c.isSurrogate then none else some ((units16 c.val).flatMap unit)

def encode32? (word : Nat → Bytes) (c : CodePoint) : Option Bytes :=
  if c.isSurrogate then none else some (word c.val)

def encodeBelow? (limit : Nat) (c : CodePoint) : Option Bytes :=
  if c.val < limit then some [UInt8.ofNat c.val] else none

def encodeChar? : Charset → CodePoint → Option Bytes
  | .utf8 | .utf8Marked => Utf8.encode?
  | .utf16 | .utf16Little => encode16? wide16
  | .utf16Big => encode16? fun n => (wide16 n).reverse
  | .utf32 | .utf32Little => encode32? wide32
  | .utf32Big => encode32? fun n => (wide32 n).reverse
  | .ascii => encodeBelow? 0x80
  | .latin1 => encodeBelow? 0x100
  | .latin9 => SingleByte.encode? SingleByte.latin9
  | .cp1252 => SingleByte.encode? SingleByte.cp1252
  | .koi8r => SingleByte.encode? SingleByte.koi8r
  | .shiftJis => ShiftJis.encode?

/-- What stands before all characters, even before none. -/
def mark : Charset → Bytes
  | .utf8Marked => [0xEF, 0xBB, 0xBF]
  | .utf16 => [0xFF, 0xFE]
  | .utf32 => [0xFF, 0xFE, 0, 0]
  | _ => []

/-- Sets of one byte report all the characters in a row that they lack, others the first alone. -/
def reportsRuns : Charset → Bool
  | .utf8 | .utf8Marked | .ascii | .latin1 | .latin9 | .cp1252 | .koi8r => true
  | _ => false

def title : Charset → Text
  | .utf8 | .utf8Marked => "utf-8"
  | .utf16 => "utf-16"
  | .utf16Little => "utf-16-le"
  | .utf16Big => "utf-16-be"
  | .utf32 => "utf-32"
  | .utf32Little => "utf-32-le"
  | .utf32Big => "utf-32-be"
  | .ascii => "ascii"
  | .latin1 => "latin-1"
  | .latin9 | .cp1252 | .koi8r => "charmap"
  | .shiftJis => "shift_jis"

def lack : Charset → Text
  | .ascii => "ordinal not in range(128)"
  | .latin1 => "ordinal not in range(256)"
  | .latin9 | .cp1252 | .koi8r => "character maps to <undefined>"
  | .shiftJis => "illegal multibyte sequence"
  | _ => "surrogates not allowed"

end Charset

/-- Characters from `start` up to and without `stop` that a set lacks; `first` is the first. -/
structure EncodingFault where
  charset : Charset
  first : CodePoint
  start : Nat
  stop : Nat
deriving DecidableEq, Repr

def EncodingFault.message (f : EncodingFault) : Text :=
  "'" ++ f.charset.title ++ "' codec can't encode " ++
    (if f.stop = f.start + 1 then
      "character '" ++ f.first.numbered ++ "' in position " ++ Text.ofNat f.start
    else
      "characters in position " ++ Text.ofNat f.start ++ "-" ++ Text.ofNat (f.stop - 1))
    ++ ": " ++ f.charset.lack

namespace Charset

def lacks (cs : Charset) (c : CodePoint) : Bool := (cs.encodeChar? c).isNone

def fault? (cs : Charset) (t : Text) : Option EncodingFault :=
  match t.dropWhile fun c => !cs.lacks c with
  | [] => none
  | c :: r =>
    let start := t.length - (r.length + 1)
    let run := if cs.reportsRuns then (r.takeWhile cs.lacks).length + 1 else 1
    some ⟨cs, c, start, start + run⟩

def encode (cs : Charset) (t : Text) : Except EncodingFault Bytes :=
  match cs.fault? t with
  | some f => .error f
  | none => .ok (cs.mark ++ t.flatMap fun c => (cs.encodeChar? c).getD [])

end Charset

end TreePlan
