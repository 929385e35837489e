import TreePlan.Layout.Parse

/-!
What a caller is told: whether a layout is valid, and how building it ended.
-/

namespace TreePlan

inductive ErrorKind where
  | invalid
  | blocked
  | navigation
  | creation
deriving DecidableEq, Repr

namespace ErrorKind

def name : ErrorKind → Text
  | .invalid => "syntax"
  | .blocked => "blocked"
  | .navigation => "navigation"
  | .creation => "creation"

def code : ErrorKind → Text
  | .invalid => "LAYOUT_SYNTAX"
  | .blocked => "PATH_BLOCKED"
  | .navigation => "NAVIGATION_FAILED"
  | .creation => "CREATION_FAILED"

def all : List ErrorKind := [.invalid, .blocked, .navigation, .creation]

def ofName? (name : Text) : Option ErrorKind := all.find? fun k => k.name = name

end ErrorKind

/-- The end of building a layout: the paths made, or an error and where it arose. -/
structure Status where
  ok : Bool
  code : Int
  message : Text
  kind : Option ErrorKind := none
  line : Option Int := none
  path : Option Text := none
  index : Option Int := none
  created : List Text := []
deriving DecidableEq, Repr

namespace Status

def errorFields (s : Status) (kind : ErrorKind) : Fields :=
  let fields : Fields := [("code", .text kind.code), ("message", .text s.message)]
  fields ++ Fields.optional "line" (s.line.map .int) ++ Fields.optional "path" (s.path.map .text)
    ++ Fields.optional "entry_index" (s.index.map .int)

/-- The error is there only when there is a kind of error. -/
def envelope (s : Status) : Fields :=
  let fields : Fields :=
    [("ok", .bool s.ok), ("status", .int s.code), ("message", .text s.message),
      ("result", .map [("created", .ofTexts s.created)])]
  fields ++ Fields.optional "error" (s.kind.map fun k => .map (s.errorFields k))

def ofSyntaxError (e : SyntaxError) : Status :=
  { ok := false, code := 400, message := "Syntax error in layout: " ++ e.message
    kind := some .invalid, line := some e.line }

end Status

/-- Whether a layout is valid, else the error and its line. -/
structure Verdict where
  valid : Bool
  error : Option Text := none
  line : Option Nat := none
deriving DecidableEq, Repr

def Verdict.fields (v : Verdict) : Fields :=
  [("valid", .bool v.valid), ("error", .ofOption .text v.error), ("line", .ofOption .ofNat v.line)]

def Layout.check (strict : Bool) (text : Text) : Except Json.Fault Verdict :=
  match parse strict text with
  | .ok _ => .ok { valid := true }
  | .error (.invalid e) => .ok { valid := false, error := some e.message, line := some e.line }
  | .error (.oversized fault) => .error fault

end TreePlan
