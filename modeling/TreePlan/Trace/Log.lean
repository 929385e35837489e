import TreePlan.Failure
import TreePlan.Json.Printer
import TreePlan.Json.Reader
import TreePlan.Trace.Event

/-!
A trace log: one record a line, as a JSON object. A reader passes over lines that are no JSON objects
and gives the last records that it was asked for.
-/

namespace TreePlan.Log

/-- The line of a record. Its metadata may hold what no line can. -/
def line (r : Record) : Except Failure Text :=
  match Json.unwritable? (.map r.fields) with
  | some kind => .error (.unwritable kind)
  | none => .ok (Json.print (.map r.fields) ++ "\n")

def isFailure (fields : Fields) : Bool :=
  match fields.get? "ok" with
  | some (.bool false) => true
  | _ => false

/-- What a line adds to the records: a number that is too long is no mere lack of form. -/
def ofLine? (failuresOnly : Bool) (line : Text) : Except Failure (Option Fields) :=
  match Json.read line with
  | .error (.integerTooLong n) => .error (.oversized (.integerTooLong n))
  | .ok (.map fields) => .ok (if failuresOnly && !isFailure fields then none else some fields)
  | _ => .ok none

def ofLines (failuresOnly : Bool) : List Text → Except Failure (List Fields)
  | [] => .ok []
  | line :: rest => do
    let record ← ofLine? failuresOnly line
    let records ← ofLines failuresOnly rest
    return record.toList ++ records

/-- A carriage return at the end may be half of a line end; it is not there until more has come. -/
def settled (t : Text) : Text :=
  if t.getLast? = some (CodePoint.ofChar '\r') then t.dropLast else t

/-- The records of a log. Where bytes do not decode, the whole lines before their piece are read
first. -/
def records (failuresOnly : Bool) (content : Bytes) : Except Failure (List Fields) :=
  match Utf8.decodePieces [] content with
  | (text, none) => ofLines failuresOnly text.unifyNewlines.lines
  | (text, some fault) => do
    let _ ← ofLines failuresOnly (Text.splitOn '\n' (settled text).unifyNewlines).dropLast
    throw (.undecodable fault)

def last {α : Type} (n : Nat) (xs : List α) : List α := xs.drop (xs.length - n)

/-- More records than this cannot be asked for. -/
def limitBound : Int := 0x7FFFFFFFFFFFFFFF

end TreePlan.Log
