import TreePlan.Toml.Reader

/-!
TOML documents: statements of one line each, save for values that run over lines. A table is opened
once by a header; a table that dotted keys have made is closed to headers and dotted keys of later
sections; inline tables and arrays are closed to all additions.
-/

namespace TreePlan.Toml

/-- What has been read so far. `sealed` are values to which nothing is added, at any depth; `opened`
are tables with a header; `dotted` are tables that dotted keys of this section have made. -/
structure Document where
  table : Fields := []
  header : Key := []
  «sealed» : List Key := []
  opened : List Key := []
  dotted : List Key := []

namespace Document

def isSealed (d : Document) (key : Key) : Bool := d.sealed.any fun k => k.isPrefixOf key

def isOpened (d : Document) (key : Key) : Bool := d.opened.contains key

/-- A header ends the section before it. -/
def endSection (d : Document) : Document := { d with opened := d.dotted ++ d.opened, dotted := [] }

def openTable (d : Document) (key : Key) : Option Document := do
  if d.isOpened key || d.isSealed key then none
  let table ← within true some key d.table
  return { d with table, header := key, opened := key :: d.opened }

def addItem (last : Text) (table : Fields) : Option Fields :=
  match table.get? last with
  | none => some (table.insert last (.list [.map []]))
  | some (.list items) => some (table.insert last (.list (items ++ [.map []])))
  | some _ => none

/-- A new item of an array of tables; what was said of the tables in the item before is forgotten. -/
def openItem (d : Document) (key : Key) : Option Document := do
  if d.isSealed key then none
  let (parents, last) := splitKey key
  let table ← within true (addItem last) parents d.table
  let other := fun k : Key => !key.isPrefixOf k
  return { d with
    table, header := key
    «sealed» := d.sealed.filter other
    opened := key :: d.opened.filter other }

/-- The tables on the way to the last part of a dotted key. -/
def onTheWay (header key : Key) : List Key :=
  (List.range (key.length - 1)).map fun i => header ++ key.take (i + 1)

def addPair (d : Document) (key : Key) (value : Value) : Option Document := do
  let (parents, last) := splitKey key
  let way := onTheWay d.header key
  if way.any d.isOpened || d.isSealed (d.header ++ parents) then none
  let table ← within true (addNew last value) (d.header ++ parents) d.table
  return { d with
    table
    «sealed» := if isCollection value then (d.header ++ key) :: d.sealed else d.sealed
    dotted := way ++ d.dotted }

end Document

def orMalformed {α : Type} : Option α → Except Fault α
  | some a => .ok a
  | none => .error .malformed

def readHeader (mark closing : Text) (change : Document → Key → Option Document) (d : Document)
    (s : Text) : Except Fault (Document × Text) := do
  let s ← orMalformed (mark.after? s)
  let (key, s) ← readKey (s.length + 1) (skipBlanks s)
  let d ← orMalformed (change d.endSection key)
  return (d, ← orMalformed (closing.after? s))

def readPair (d : Document) (s : Text) : Except Fault (Document × Text) := do
  let (key, s) ← readKey (s.length + 1) s
  let s ← orMalformed (Text.after? "=" s)
  let (value, s) ← readValue (2 * s.length + 1) (skipBlanks s)
  return (← orMalformed (d.addPair key value), s)

/-- One statement, or none before a comment. -/
def readStatement (d : Document) (s : Text) : Except Fault (Document × Text) :=
  match s with
  | [] => .ok (d, [])
  | c :: _ =>
    if isBare c || c = '"' || c = '\x27' then readPair d s
    else if s.startsWith "[[" then readHeader "[[" "]]" Document.openItem d s
    else if c = '[' then readHeader "[" "]" Document.openTable d s
    else if c = '#' then .ok (d, s)
    else .error .malformed

def readStatements : Nat → Document → Text → Except Fault Document
  | 0, d, _ => .ok d
  | steps + 1, d, s => do
    match skipBlanks s with
    | [] => return d
    | c :: r =>
      if c = '\n' then readStatements steps d r
      else
        let (d, s) ← readStatement d (c :: r)
        match ← skipComment (skipBlanks s) with
        | [] => return d
        | c :: r => if c = '\n' then readStatements steps d r else throw .malformed

/-- A return before a line end belongs to it. -/
def dropReturns : Text → Text
  | [] => []
  | c :: r => if c = '\r' ∧ Text.startsWith r "\n" then dropReturns r else c :: dropReturns r

def read (t : Text) : Except Fault Fields := do
  let s := dropReturns t
  return (← readStatements (s.length + 1) {} s).table

end TreePlan.Toml
