import TreePlan.Value

/-!
What a run tells its observer. An event names the operation, the path, whether it went well and, if
not, why; its metadata keep scalars only, so that no content of a file reaches a trace. A record is an
event with the time at which it was noted.
-/

namespace TreePlan

structure Event where
  operation : Text
  path : Text
  ok : Bool
  error : Option Text := none
  metadata : Fields := []

structure Record where
  timestamp : Text
  event : Event

def Record.fields (r : Record) : Fields :=
  [("timestamp", .text r.timestamp), ("operation", .text r.event.operation),
    ("path", .text r.event.path), ("ok", .bool r.event.ok),
    ("error", .ofOption .text r.event.error), ("metadata", .map r.event.metadata)]

namespace Metadata

def isScalar : Value → Bool
  | .null | .bool _ | .int _ | .float _ | .text _ => true
  | _ => false

/-- The name of a value's kind. -/
def kindName : Value → Text
  | .null => "NoneType"
  | .bool _ => "bool"
  | .int _ => "int"
  | .float _ => "float"
  | .text _ => "str"
  | .bytes _ => "bytes"
  | .moment _ => "datetime"
  | .list _ => "list"
  | .tuple _ => "tuple"
  | .map _ => "dict"

def contentKey : Text := "content"

/-- How long a content is, where it has a length that may be told. -/
def length? : Value → Option Nat
  | .text t => some t.length
  | .bytes b => some b.length
  | _ => none

def isNull : Value → Bool
  | .null => true
  | _ => false

/-- What one key contributes: of a content its presence and length, of a value that is no scalar the
name of its kind. -/
def contribution (key : Text) (value : Value) : Fields :=
  if key = contentKey then
    ("content_present", .bool (!isNull value)) ::
      match length? value with
      | some n => [("content_length", .ofNat n)]
      | none => []
  else if isScalar value then [(key, value)]
  else [(key ++ "_type", .text (kindName value))]

/-- Keys contribute in code point order; of two contributions to one key the later stays. -/
def sanitize (metadata : Fields) : Fields :=
  Fields.ofList ((metadata.mergeSort fun a b => Text.le a.1 b.1).flatMap fun p =>
    contribution p.1 p.2)

end Metadata

end TreePlan
