import TreePlan.Double.Shortest
import TreePlan.Value

/-!
Writing JSON on one line: `", "` and `": "` between the parts, keys in code point order, and all
that is not printable ASCII as numbered escapes, a character of the upper planes as two. A tuple is
written as a list.
-/

namespace TreePlan.Json

def escapedUnit (n : Nat) : Text := "\\u" ++ Text.hex 4 n

def escaped (c : CodePoint) : Text :=
  if c = '"' then "\\\""
  else if c = '\\' then "\\\\"
  else if c = '\n' then "\\n"
  else if c = '\r' then "\\r"
  else if c = '\t' then "\\t"
  else if c.val = 8 then "\\b"
  else if c.val = 12 then "\\f"
  else if 0x20 ≤ c.val ∧ c.val ≤ 0x7E then [c]
  else if c.val < 0x10000 then escapedUnit c.val
  else escapedUnit (0xD800 + (c.val - 0x10000) / 0x400) ++ escapedUnit (0xDC00 + c.val % 0x400)

def printText (t : Text) : Text := "\"" ++ t.flatMap escaped ++ "\""

def printFloat (x : Double) : Text :=
  if x.isNaN then "NaN"
  else (if x.isNegative then "-" else "") ++ (if x.isInfinite then ↑"Infinity" else x.finiteText)

def sortByKey {α : Type} (pairs : List (Text × α)) : List (Text × α) :=
  pairs.mergeSort fun a b => Text.le a.1 b.1

def printPair (p : Text × Text) : Text := printText p.1 ++ ": " ++ p.2

mutual

/-- Bytes and moments have no JSON form; `null` stands for them, and `unwritable?` finds them. -/
def print : Value → Text
  | .null => "null"
  | .bool b => if b then "true" else "false"
  | .int n => Text.ofInt n
  | .float x => printFloat x
  | .text t => printText t
  | .bytes _ => "null"
  | .moment _ => "null"
  | .list items => "[" ++ Text.unlines ", " (printItems items) ++ "]"
  | .tuple items => "[" ++ Text.unlines ", " (printItems items) ++ "]"
  | .map fields =>
    "\x7b" ++ Text.unlines ", " ((sortByKey (printFields fields)).map printPair) ++ "\x7d"

def printItems : List Value → List Text
  | [] => []
  | v :: r => print v :: printItems r

def printFields : List (Text × Value) → List (Text × Text)
  | [] => []
  | (k, v) :: r => (k, print v) :: printFields r

end

mutual

/-- The kind of a part that has no JSON form. -/
def unwritable? : Value → Option Text
  | .bytes _ => some "bytes"
  | .moment _ => some "datetime"
  | .list items => unwritableItem? items
  | .tuple items => unwritableItem? items
  | .map fields => unwritableField? fields
  | _ => none

def unwritableItem? : List Value → Option Text
  | [] => none
  | v :: r => unwritable? v <|> unwritableItem? r

def unwritableField? : List (Text × Value) → Option Text
  | [] => none
  | (_, v) :: r => unwritable? v <|> unwritableField? r

end

end TreePlan.Json
