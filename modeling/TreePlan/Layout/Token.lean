import TreePlan.Json.Reader
import TreePlan.Text.Blank

/-!
The parts of a line. Each reader takes what is left of the line and returns the part it read with
what is left after it. Quoted parts are JSON strings, extras the members of a JSON object without
its braces, and a permission block is `(MODE)` or `(OWNER,GROUP,MODE)` with the mode in base 8.
-/

namespace TreePlan

/-- What can be wrong with a line. -/
inductive LineFault where
  | tabInIndent
  | indentBelowFile
  | unknownIndent
  | unclosedQuote (label : Text)
  | invalidString (label : Text) (fault : Json.Fault)
  | invalidPermission
  | invalidExtras (fault : Json.Fault)
  | extrasNotObject
  | emptyName
  | slashInName
  | dotName
  | directoryLink
  | emptyTarget
  | trailingText
  | directoryContent
  | contentNotText
  | unknownExtras (keys : List Text)
deriving DecidableEq, Repr

def LineFault.reason : LineFault → Text
  | .tabInIndent => "Tabs are not allowed"
  | .indentBelowFile =>
    "More indented than previous spec-line, but previous spec-line is not a directory"
  | .unknownIndent => "Invalid indent, must return to one of previous levels' indent"
  | .unclosedQuote label => "Invalid quoted " ++ label
  | .invalidString label fault => "Invalid JSON string in " ++ label ++ ": " ++ fault.message
  | .invalidPermission => "Invalid syntax in permission/owner"
  | .invalidExtras fault => "Invalid unquoted JSON hash in extras: " ++ fault.message
  | .extrasNotObject => "Extras must be a JSON object body"
  | .emptyName => "Filename cannot be empty"
  | .slashInName => "Filename cannot contain slashes"
  | .dotName => "Filename cannot be . or .."
  | .directoryLink => "Symlink cannot be a directory"
  | .emptyTarget => "Symlink target cannot be empty"
  | .trailingText => "Unexpected text after entry"
  | .directoryContent => "Directory must not have 'content'"
  | .contentNotText => "Extras 'content' must be a string"
  | .unknownExtras keys => "Unknown extras keys: " ++ Text.unlines ", " (Text.sorted keys)

/-- A number with too many digits is no fault of the line's form. -/
def LineFault.oversized? : LineFault → Option Json.Fault
  | .invalidString _ (.integerTooLong n) => some (.integerTooLong n)
  | .invalidExtras (.integerTooLong n) => some (.integerTooLong n)
  | _ => none

/-- A permission block. -/
structure Permission where
  mode : Nat
  text : Text
  owner : Option Text := none
  group : Option Text := none
deriving DecidableEq, Repr

namespace Token

/-- Through the first quote that no backslash escapes. -/
def throughQuote? : Text → Option (Text × Text)
  | [] => none
  | c :: r =>
    if c = '"' then some ([c], r)
    else if c = '\\' then
      match r with
      | [] => none
      | e :: r => (throughQuote? r).map fun p => (c :: e :: p.1, p.2)
    else (throughQuote? r).map fun p => (c :: p.1, p.2)

/-- A literal begins with a character that is not looked at and ends with the next quote. -/
def literal? : Text → Option (Text × Text)
  | [] => none
  | c :: r => (throughQuote? r).map fun p => (c :: p.1, p.2)

def readQuoted (label : Text) (s : Text) : Except LineFault (Text × Text) :=
  match literal? s with
  | none => .error (.unclosedQuote label)
  | some (literal, rest) =>
    match Json.read literal with
    | .ok (.text t) => .ok (t, rest)
    | .ok _ => .error (.invalidString label .expectingValue)
    | .error fault => .error (.invalidString label fault)

def isBare (stops : Text) (c : CodePoint) : Bool := !c.isBlank && !stops.contains c

def readBare (stops : Text) (s : Text) : Text × Text :=
  (s.takeWhile (isBare stops), s.dropWhile (isBare stops))

def readWord (label stops : Text) (s : Text) : Except LineFault (Text × Text) :=
  if s.startsWith "\"" then readQuoted label s else .ok (readBare stops s)

def isOctal (c : CodePoint) : Bool := 0x30 ≤ c.val && c.val ≤ 0x37

/-- Three or four digits in base 8 and the closing bracket. -/
def readMode? (s : Text) : Option (Text × Text) :=
  let digits := s.takeWhile isOctal
  if digits.length = 3 ∨ digits.length = 4 then
    (Text.after? ")" (s.dropWhile isOctal)).map fun r => (digits, r)
  else none

def isField (c : CodePoint) : Bool := c ≠ ','

/-- A field without a comma, and the comma after it. -/
def readField? (s : Text) : Option (Text × Text) :=
  (Text.after? "," (s.dropWhile isField)).map fun r => (s.takeWhile isField, r)

def nonEmpty? (t : Text) : Option Text := if t.isEmpty then none else some t

def readOwnedMode? (s : Text) : Option (Permission × Text) := do
  let (owner, s) ← readField? s
  let (group, s) ← readField? s
  let (digits, s) ← readMode? s
  return (⟨Text.valueOf 8 digits, digits, nonEmpty? owner, nonEmpty? group⟩, s)

def readBareMode? (s : Text) : Option (Permission × Text) :=
  (readMode? s).map fun p => (⟨Text.valueOf 8 p.1, p.1, none, none⟩, p.2)

/-- The form with an owner and a group is looked for first, across all of the text. -/
def readPermission (s : Text) : Except LineFault (Permission × Text) :=
  match Text.after? "(" s with
  | none => .error .invalidPermission
  | some s =>
    match readOwnedMode? s <|> readBareMode? s with
    | none => .error .invalidPermission
    | some p => .ok p

/-- What follows an arrow with the blanks around it. -/
def afterArrow? (s : Text) : Option Text := (Text.after? "->" s.dropBlanks).map Text.dropBlanks

/-- Extras start after at least one blank and run to the end. -/
def splitExtras (s : Text) : Option Text × Text :=
  let body := s.dropBlanks
  if body.isEmpty || body.length = s.length then (none, s) else (some body, [])

def decodeExtras (body : Text) : Except LineFault Fields :=
  match Json.read ("\x7b" ++ body ++ "\x7d") with
  | .ok (.map fields) => .ok fields
  | .ok _ => .error .extrasNotObject
  | .error fault => .error (.invalidExtras fault)

end Token

end TreePlan
