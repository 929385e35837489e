import TreePlan.Layout.Entry
import TreePlan.Layout.Indent
import TreePlan.Layout.Token

/-!
From the text of a layout to its entries. Blank lines and comments are passed over; each other line
makes one entry, whose level follows from the indentations before it. The first line that is wrong
decides the error.
-/

namespace TreePlan

structure SyntaxError where
  line : Nat
  fault : LineFault
  source : Text
deriving DecidableEq, Repr

def SyntaxError.message (e : SyntaxError) : Text :=
  "(layout):" ++ Text.ofNat e.line ++ ": " ++ e.fault.reason ++ ": " ++ e.source

inductive ParseError where
  | invalid (error : SyntaxError)
  | oversized (fault : Json.Fault)
deriving DecidableEq, Repr

def ParseError.ofLine (line : Nat) (source : Text) (fault : LineFault) : ParseError :=
  match fault.oversized? with
  | some f => .oversized f
  | none => .invalid ⟨line, fault, source⟩

namespace Layout

def isSkipped (line : Text) : Bool :=
  let body := line.dropBlanks
  body.isEmpty || body.startsWith "#"

/-- What earlier lines mean for the next one. -/
structure Context where
  indents : Indents := .empty
  belowDirectory : Bool := false

def Context.open (ctx : Context) (indent : Text) : Except LineFault Indents :=
  if indent.contains '\t' then .error .tabInIndent
  else
    let width : Int := indent.length
    match ctx.indents.current? with
    | none => .ok (ctx.indents.push width)
    | some current =>
      if current < width then
        if ctx.belowDirectory then .ok (ctx.indents.push width) else .error .indentBelowFile
      else if width < current then
        match ctx.indents.returnTo? width with
        | none => .error .unknownIndent
        | some indents => .ok indents
      else .ok ctx.indents

def readName (s : Text) : Except LineFault (Text × Text) := do
  let (name, s) ← Token.readWord "filename" "(/" s
  if name.isEmpty then throw .emptyName
  if name.contains '/' then throw .slashInName
  if name = "." ∨ name = ".." then throw .dotName
  return (name, s)

def readSlash (s : Text) : Bool × Text :=
  match Text.after? "/" s with
  | some s => (true, s)
  | none => (false, s)

def readPermission? (s : Text) : Except LineFault (Option Permission × Text) :=
  if s.startsWith "(" then (Token.readPermission s).map fun p => (some p.1, p.2)
  else .ok (none, s)

def readTarget? (isDirectory : Bool) (s : Text) : Except LineFault (Option Text × Text) :=
  match Token.afterArrow? s with
  | none => .ok (none, s)
  | some s =>
    if isDirectory then .error .directoryLink
    else do
      let (target, s) ← Token.readWord "symlink target" [] s
      if target.isEmpty then throw .emptyTarget
      return (some target, s)

def readExtras (s : Text) : Except LineFault Fields :=
  let (body, rest) := Token.splitExtras s
  if !rest.isBlank then .error .trailingText
  else match body with
    | none => .ok []
    | some body => Token.decodeExtras body

def contentOf (isDirectory : Bool) (extras : Fields) : Except LineFault (Option Text) :=
  match extras.get? "content" with
  | none => .ok none
  | some value =>
    if isDirectory then .error .directoryContent
    else match value with
      | .null => .ok none
      | .text t => .ok (some t)
      | _ => .error .contentNotText

def readSpec (strict : Bool) (level line : Nat) (s : Text) : Except LineFault Entry := do
  let (name, s) ← readName s
  let (isDirectory, s) := readSlash s
  let (permission, s) ← readPermission? s
  let (target, s) ← readTarget? isDirectory s
  let extras ← readExtras s
  let content ← contentOf isDirectory extras
  let unknown := extras.erase "content"
  if strict && !unknown.isEmpty then throw (.unknownExtras unknown.keys)
  return {
    name, level, line, isDirectory, target, content
    mode := permission.map fun p => p.mode
    modeText := permission.map fun p => p.text
    owner := permission.bind fun p => p.owner
    group := permission.bind fun p => p.group
    extras := unknown }

def readLine (strict : Bool) (line : Nat) (ctx : Context) (source : Text) :
    Except LineFault (Entry × Context) := do
  let indents ← ctx.open source.leadingBlanks
  let entry ← readSpec strict indents.level line source.dropBlanks
  return (entry, ⟨indents, entry.isDirectory⟩)

def readLines (strict : Bool) : Nat → Context → List Text → Except ParseError (List Entry)
  | _, _, [] => .ok []
  | line, ctx, source :: rest =>
    if isSkipped source then readLines strict (line + 1) ctx rest
    else
      match readLine strict line ctx source with
      | .error fault => .error (.ofLine line source fault)
      | .ok (entry, ctx) => (readLines strict (line + 1) ctx rest).map (entry :: ·)

def parse (strict : Bool) (text : Text) : Except ParseError (List Entry) :=
  readLines strict 1 {} (Text.splitOn '\n' text)

end Layout

end TreePlan
