import TreePlan.Failure
import TreePlan.Path.Basic
import TreePlan.Toml.Document

/-!
Settings in three layers: defaults, a settings file and overrides. A field that a layer leaves out keeps
the value of the layer below; an override of the trace path turns tracing on as well.
-/

namespace TreePlan

structure Settings where
  root : Path
  strictExtras : Bool := false
  encoding : Text := "utf-8"
  traceEnabled : Bool := false
  tracePath : Path
deriving DecidableEq, Repr

structure Overrides where
  strictExtras : Option Bool := none
  encoding : Option Text := none
  tracePath : Option Path := none
deriving DecidableEq, Repr

inductive SettingsError where
  | sectionNotTable (name : Text)
  | notBoolean (field : Text)
  | notText (field : Text)
  | unknownEncoding (field name : Text)
  | document (fault : Toml.Fault)
  | failed (failure : Failure)
deriving DecidableEq, Repr

namespace SettingsError

def message : SettingsError → Text
  | .sectionNotTable name => "Config section '" ++ name ++ "' must be a table."
  | .notBoolean field => "Config field '" ++ field ++ "' must be a boolean."
  | .notText field => "Config field '" ++ field ++ "' must be a non-empty string."
  | .unknownEncoding field name =>
    "Config field '" ++ field ++ "' names an unknown encoding: " ++ name
  | .document .malformed => "Invalid settings document"
  | .document (.integerTooLong n) => (Json.Fault.integerTooLong n).message
  | .failed failure => failure.text

/-- Errors of what the settings say, as opposed to failures to get at them. -/
def isValue : SettingsError → Bool
  | .failed failure => failure.kind.isValue
  | _ => true

end SettingsError

namespace Settings

def fileName : Text := "fslayout.toml"

def defaultTracePath : Text := ".fslayout/trace.jsonl"

def default (root : Path) : Settings := { root, tracePath := root.join defaultTracePath }

def sectionOf (payload : Fields) (name : Text) : Except SettingsError Fields :=
  match payload.get? name with
  | none => .ok []
  | some (.map fields) => .ok fields
  | some _ => .error (.sectionNotTable name)

def boolean (field : Text) (below : Bool) : Option Value → Except SettingsError Bool
  | none | some .null => .ok below
  | some (.bool b) => .ok b
  | some _ => .error (.notBoolean field)

/-- A name is taken as it is written, if it names any encoding. One that can't even be looked for is a
failure of its own. -/
def encodingName (field name : Text) : Except SettingsError Text :=
  if name.isEmpty then .error (.notText field)
  else match Codec.lookup name with
    | .ok _ => .ok name
    | .error (.unknown _) | .error (.notForText _) => .error (.unknownEncoding field name)
    | .error fault => .error (.failed (.encodingName fault))

def encodingField (field below : Text) : Option Value → Except SettingsError Text
  | none | some .null => .ok below
  | some (.text name) => encodingName field name
  | some _ => .error (.notText field)

def pathField (field : Text) (root below : Path) : Option Value → Except SettingsError Path
  | none => .ok below
  | some (.text t) => if t.isEmpty then .error (.notText field) else .ok (root.join t)
  | some _ => .error (.notText field)

/-- An override of the trace path counts as it is; it has been made absolute before. -/
def override (base : Settings) (o : Overrides) : Except SettingsError Settings := do
  let encoding ← encodingField "overrides.content_encoding" base.encoding (o.encoding.map .text)
  return { base with
    encoding
    strictExtras := o.strictExtras.getD base.strictExtras
    traceEnabled := base.traceEnabled || o.tracePath.isSome
    tracePath := o.tracePath.getD base.tracePath }

/-- The fields of a settings file over the settings below it. -/
def overlay (base : Settings) (payload : Fields) : Except SettingsError Settings := do
  let layout ← sectionOf payload "layout"
  let trace ← sectionOf payload "trace"
  let strictExtras ← boolean "layout.strict_extras" base.strictExtras (layout.get? "strict_extras")
  let encoding ←
    encodingField "layout.content_encoding" base.encoding (layout.get? "content_encoding")
  let traceEnabled ← boolean "trace.enabled" base.traceEnabled (trace.get? "enabled")
  let tracePath ← pathField "trace.path" base.root base.tracePath (trace.get? "path")
  return { base with strictExtras, encoding, traceEnabled, tracePath }

def merge (base : Settings) (payload : Fields) (o : Overrides) : Except SettingsError Settings := do
  override (← overlay base payload) o

end Settings

end TreePlan
