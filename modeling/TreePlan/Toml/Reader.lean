import TreePlan.Toml.Scalar

/-!
Values and keys of TOML. Basic strings have escapes, literal strings none; both may run over lines
between three quotes. Arrays may hold line ends and comments, inline tables neither. Depths and step
counts that readers take are bounds; the length of the text is enough for each. So values nest to any
depth: the limit that an interpreter has for its own recursion is none of the format's and is left out.
-/

namespace TreePlan.Toml

abbrev Key := List Text

def isBlank (c : CodePoint) : Bool := c = ' ' || c = '\t'

def isBlankOrLineEnd (c : CodePoint) : Bool := isBlank c || c = '\n'

/-- Control characters stand nowhere in a document, the tab excepted. -/
def isIllegal (c : CodePoint) : Bool := (c.val < 0x20 || c.val == 0x7F) && c ≠ '\t'

/-- In strings over lines and between statements the line end is legal as well. -/
def isIllegalInBlock (c : CodePoint) : Bool := isIllegal c && c ≠ '\n'

def skipBlanks (s : Text) : Text := s.dropWhile isBlank

def isInLine (c : CodePoint) : Bool := c ≠ '\n'

def skipComment (s : Text) : Except Fault Text :=
  match Text.after? "#" s with
  | none => .ok s
  | some r =>
    if (r.takeWhile isInLine).any isIllegal then .error .malformed
    else .ok (r.dropWhile isInLine)

/-- Blanks, line ends and comments between the items of an array. -/
def skipFiller : Nat → Text → Except Fault Text
  | 0, s => .ok s
  | steps + 1, s => do
    let r ← skipComment (s.dropWhile isBlankOrLineEnd)
    if r.length = s.length then return s else skipFiller steps r

/-! ## Strings -/

def shortEscape? (c : CodePoint) : Option CodePoint :=
  if c = 'b' then some (CodePoint.ofNat 8)
  else if c = 't' then some '\t'
  else if c = 'n' then some '\n'
  else if c = 'f' then some (CodePoint.ofNat 12)
  else if c = 'r' then some '\r'
  else if c = '"' ∨ c = '\\' then some c
  else none

/-- A character by its number, which must not be a surrogate's. -/
def readCode (width : Nat) (s : Text) : Except Fault (Text × Text) :=
  let digits := s.take width
  let n := Text.valueOf 16 digits
  if digits.length = width ∧ digits.all (isBelow 16) ∧ n < 0x110000
      ∧ !(CodePoint.ofNat n).isSurrogate then
    .ok ([CodePoint.ofNat n], s.drop width)
  else .error .malformed

/-- A backslash at the end of a line takes the blanks and line ends after it away. -/
def skipLineEnd (s : Text) : Except Fault Text :=
  match skipBlanks s with
  | [] => .ok []
  | c :: r => if c = '\n' then .ok (r.dropWhile isBlankOrLineEnd) else .error .malformed

/-- What an escape stands for, after its backslash. -/
def readEscape (block : Bool) (s : Text) : Except Fault (Text × Text) :=
  match s with
  | [] => .error .malformed
  | c :: r =>
    if block && isBlankOrLineEnd c then (skipLineEnd s).map fun r => ([], r)
    else if c = 'u' then readCode 4 r
    else if c = 'U' then readCode 8 r
    else match shortEscape? c with
      | some k => .ok ([k], r)
      | none => .error .malformed

/-- A basic string after its opening quotes, through the closing ones. -/
def readBasic (block : Bool) : Nat → Text → Except Fault (Text × Text)
  | 0, _ => .error .malformed
  | _, [] => .error .malformed
  | steps + 1, c :: r =>
    if c = '"' then
      if block then
        match Text.after? "\"\"" r with
        | some r => .ok ([], r)
        | none => (readBasic block steps r).map fun p => (c :: p.1, p.2)
      else .ok ([], r)
    else if c = '\\' then do
      let (t, r) ← readEscape block r
      let (rest, r) ← readBasic block steps r
      return (t ++ rest, r)
    else if (if block then isIllegalInBlock c else isIllegal c) then .error .malformed
    else (readBasic block steps r).map fun p => (c :: p.1, p.2)

/-- The text before a mark and the text after it. -/
def untilMark? (mark : Text) : Text → Option (Text × Text)
  | [] => none
  | c :: r =>
    match mark.after? (c :: r) with
    | some rest => some ([], rest)
    | none => (untilMark? mark r).map fun p => (c :: p.1, p.2)

def readLiteral (mark : Text) (illegal : CodePoint → Bool) (s : Text) : Except Fault (Text × Text) :=
  match untilMark? mark s with
  | none => .error .malformed
  | some (t, r) => if t.any illegal then .error .malformed else .ok (t, r)

/-- A string over lines may end with up to two quotes of its own before the closing three. -/
def lastQuotes (quote : Text) (t s : Text) : Text × Text :=
  match quote.after? s with
  | none => (t, s)
  | some s =>
    match quote.after? s with
    | none => (t ++ quote, s)
    | some s => (t ++ quote ++ quote, s)

def skipFirstLineEnd (s : Text) : Text := (Text.after? "\n" s).getD s

/-- A string of one of the four kinds, if one begins here. -/
def readString? (s : Text) : Option (Except Fault (Text × Text)) :=
  match Text.after? "\"\"\"" s with
  | some r =>
    let r := skipFirstLineEnd r
    some ((readBasic true (r.length + 1) r).map fun p => lastQuotes "\"" p.1 p.2)
  | none =>
    match Text.after? "\"" s with
    | some r => some (readBasic false (r.length + 1) r)
    | none =>
      match Text.after? "\x27\x27\x27" s with
      | some r =>
        some ((readLiteral "\x27\x27\x27" isIllegalInBlock (skipFirstLineEnd r)).map fun p =>
          lastQuotes "\x27" p.1 p.2)
      | none => (Text.after? "\x27" s).map fun r => readLiteral "\x27" isIllegal r

/-! ## Keys -/

def isBare (c : CodePoint) : Bool :=
  c.isAsciiDigit || (0x41 ≤ c.val && c.val ≤ 0x5A) || (0x61 ≤ c.val && c.val ≤ 0x7A) || c = '-'
    || c = '_'

def readKeyPart (s : Text) : Except Fault (Text × Text) :=
  let bare := s.takeWhile isBare
  if !bare.isEmpty then .ok (bare, s.dropWhile isBare)
  else
    match Text.after? "\x27" s with
    | some r => readLiteral "\x27" isIllegal r
    | none =>
      match Text.after? "\"" s with
      | some r => readBasic false (r.length + 1) r
      | none => .error .malformed

/-- Parts with points between them; blanks may stand around each. -/
def readKey : Nat → Text → Except Fault (Key × Text)
  | 0, _ => .error .malformed
  | steps + 1, s => do
    let (part, s) ← readKeyPart s
    match Text.after? "." (skipBlanks s) with
    | none => return ([part], skipBlanks s)
    | some s =>
      let (parts, s) ← readKey steps (skipBlanks s)
      return (part :: parts, s)

/-! ## Tables -/

/-- Changes the table at a key, making the tables on the way. Where a key holds an array of tables,
its last one is meant if `throughLists` says so. No table stands behind another value. -/
def within (throughLists : Bool) (change : Fields → Option Fields) : Key → Fields → Option Fields
  | [], table => change table
  | k :: ks, table =>
    match table.get? k with
    | none => (within throughLists change ks []).map fun t => table.insert k (.map t)
    | some (.map sub) => (within throughLists change ks sub).map fun t => table.insert k (.map t)
    | some (.list items) =>
      match throughLists, items.getLast? with
      | true, some (.map sub) =>
        (within throughLists change ks sub).map fun t =>
          table.insert k (.list (items.dropLast ++ [.map t]))
      | _, _ => none
    | some _ => none

/-- Adds a key that is not there yet. -/
def addNew (key : Text) (value : Value) (table : Fields) : Option Fields :=
  if (table.get? key).isSome then none else some (table.insert key value)

/-- A key without its last part, and that part. -/
def splitKey (key : Key) : Key × Text := (key.dropLast, key.getLast?.getD [])

def isCollection : Value → Bool
  | .map _ | .list _ => true
  | _ => false

mutual

def readValue : Nat → Text → Except Fault (Value × Text)
  | 0, _ => .error .malformed
  | depth + 1, s =>
    match readString? s with
    | some result => result.map fun p => (.text p.1, p.2)
    | none =>
      match Text.after? "true" s, Text.after? "false" s, Text.after? "[" s, Text.after? "\x7b" s with
      | some r, _, _, _ => .ok (.bool true, r)
      | _, some r, _, _ => .ok (.bool false, r)
      | _, _, some r, _ => do
        let r ← skipFiller r.length r
        match Text.after? "]" r with
        | some r => return (.list [], r)
        | none => (readItems depth r).map fun p => (.list p.1, p.2)
      | _, _, _, some r =>
        match Text.after? "\x7d" (skipBlanks r) with
        | some r => .ok (.map [], r)
        | none => (readPairs depth [] [] (skipBlanks r)).map fun p => (.map p.1, p.2)
      | _, _, _, _ =>
        match readMoment? s <|> readNumber? s with
        | some (result, r) => result.map fun v => (v, r)
        | none =>
          match readSpecial? s with
          | some p => .ok p
          | none => .error .malformed

/-- The items of an array, through the closing bracket; a comma may stand before it. -/
def readItems : Nat → Text → Except Fault (List Value × Text)
  | 0, _ => .error .malformed
  | depth + 1, s => do
    let (v, r) ← readValue depth s
    let r ← skipFiller r.length r
    match Text.after? "]" r with
    | some r => return ([v], r)
    | none =>
      match Text.after? "," r with
      | none => throw .malformed
      | some r =>
        let r ← skipFiller r.length r
        match Text.after? "]" r with
        | some r => return ([v], r)
        | none =>
          let (vs, r) ← readItems depth r
          return (v :: vs, r)

/-- The pairs of an inline table, through the closing brace. `closed` holds the keys so far that have
tables or arrays as values; nothing is added to those. -/
def readPairs : Nat → List Key → Fields → Text → Except Fault (Fields × Text)
  | 0, _, _, _ => .error .malformed
  | depth + 1, closed, table, s => do
    let (key, s) ← readKey (s.length + 1) s
    match Text.after? "=" s with
    | none => throw .malformed
    | some s =>
      let (value, s) ← readValue depth (skipBlanks s)
      if closed.any fun k => k.isPrefixOf key then throw .malformed
      let (parents, last) := splitKey key
      match within false (addNew last value) parents table with
      | none => throw .malformed
      | some table =>
        match Text.after? "\x7d" (skipBlanks s) with
        | some s => return (table, s)
        | none =>
          match Text.after? "," (skipBlanks s) with
          | none => throw .malformed
          | some s =>
            let closed := if isCollection value then key :: closed else closed
            readPairs depth closed table (skipBlanks s)

end

end TreePlan.Toml
