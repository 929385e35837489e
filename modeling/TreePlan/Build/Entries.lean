import TreePlan.Build.Cursor
import TreePlan.Build.Run
import TreePlan.Layout.Entry
import TreePlan.Path.Compose

/-!
Building the entries of a layout in their order. The run keeps its own place below the root and hands
whole paths to the calls. The first failure stops it where it stands: an expected one is reported and
located, any other leaves the run as it came.
-/

namespace TreePlan

inductive Operation where
  | enter
  | leave
  | mkdir
  | symlink
  | create
  | write
  | chmod
  | chown
  | resolve
  | trace
deriving DecidableEq, Repr

def Operation.name : Operation → Text
  | .enter => "enter"
  | .leave => "leave"
  | .mkdir => "mkdir"
  | .symlink => "symlink"
  | .create => "create"
  | .write => "write"
  | .chmod => "chmod"
  | .chown => "chown"
  | .resolve => "resolve"
  | .trace => "trace"

inductive StopKind where
  | navigation
  | creation
deriving DecidableEq, Repr

/-- Where and why a run stopped. -/
structure Located where
  kind : StopKind
  index : Nat
  path : Path
  operation : Operation
  reason : Text
  message : Text
deriving DecidableEq, Repr

inductive Stop where
  | located (report : Located)
  | stray (failure : Failure)
deriving DecidableEq, Repr

abbrev Build := ExceptT Stop Run

namespace Build

/-- How entries are built: in which encoding, and whether anybody is told. -/
structure Options where
  encoding : Text := "utf-8"
  observed : Bool := false

def call (c : Call) : Build Answer := ExceptT.lift (Run.call c)

/-- One step of a run: what is tried, at which entry and path, and how its failure reads. -/
structure Attempt where
  kind : StopKind := .creation
  index : Nat
  operation : Operation
  path : Path
  failure : Text
  metadata : Fields := []

def Attempt.located (a : Attempt) (reason : Text) : Located :=
  ⟨a.kind, a.index, a.path, a.operation, reason, a.failure ++ ": " ++ reason⟩

/-- A failure to tell the observer is a failure of its own. -/
def Attempt.untold (a : Attempt) (reason : Text) : Located :=
  ⟨.creation, a.index, a.path, .trace, reason,
    "Can't record " ++ a.operation.name ++ " of " ++ a.path.toText ++ " in trace: " ++ reason⟩

def Attempt.event (a : Attempt) (error : Option Text) : Event :=
  ⟨a.operation.name, a.path.toText, error.isNone, error, Metadata.sanitize a.metadata⟩

/-- Tells the observer how an attempt ended. -/
def tell (o : Options) (a : Attempt) (error : Option Text) : Build Unit := do
  if o.observed then
    match ← call (.observe (a.event error)) with
    | .ok _ => pure ()
    | .error f => if f.kind.isSystem then throw (.located (a.untold f.reason)) else throw (.stray f)

/-- Judges the answer to an attempt; `tells` says whether success is told. -/
def settle (o : Options) (a : Attempt) (tells : Bool) : Answer → Build Unit
  | .ok _ => if tells then tell o a none else pure ()
  | .error f =>
    if f.isExpected then do
      tell o a (some f.reason)
      throw (.located (a.located f.reason))
    else throw (.stray f)

def attempt (o : Options) (a : Attempt) (c : Call) : Build Unit := do
  settle o a true (← call c)

/-- Closes the file whatever became of it; a failure to close hides any other. -/
def closing (path : Path) (body : Build Unit) : Build Unit := do
  let result ← ExceptT.lift body.run
  match ← call (.close path) with
  | .error f => throw (.stray f)
  | .ok _ => ExceptT.mk (pure result)

def encodeContent (encoding content : Text) : Except Failure Bytes := do
  let charset ← (Charset.lookup encoding).mapError Failure.encodingName
  (charset.encode content).mapError Failure.unencodable

def writeContent (o : Options) (index : Nat) (path : Path) (content : Text) : Build Unit := do
  let a : Attempt :=
    { index, operation := .write, path
      failure := "Can't write content to file " ++ path.toText
      metadata := [("content", .text content)] }
  match encodeContent o.encoding content with
  | .error f => settle o a true (.error f)
  | .ok bytes => attempt o a (.write path bytes)

def buildFile (o : Options) (index : Nat) (e : Entry) (path : Path) : Build Unit := do
  let a : Attempt :=
    { index, operation := .create, path, failure := "Can't create file " ++ path.toText }
  settle o a false (← call (.createFile path))
  closing path do
    tell o a none
    match e.content with
    | none => pure ()
    | some content => writeContent o index path content
  match e.mode with
  | none => pure ()
  | some mode =>
    attempt o
      { index, operation := .chmod, path
        failure := "Can't chmod file " ++ path.toText
        metadata := [("mode", .int mode)] }
      (.setMode path mode)

def buildNode (o : Options) (index : Nat) (e : Entry) (path : Path) : Build Unit :=
  if e.isDirectory then
    attempt o
      { index, operation := .mkdir, path
        failure := "Can't create directory " ++ path.toText
        metadata := [("mode", .ofOption .int e.mode)] }
      (.makeDirectory path e.mode)
  else
    match e.target with
    | some target =>
      attempt o
        { index, operation := .symlink, path
          failure := "Can't create symlink " ++ path.toText ++ " -> " ++ target
          metadata := [("target", .text target)] }
        (.link target path)
    | none => buildFile o index e path

def setOwner (o : Options) (index : Nat) (e : Entry) (path : Path) : Build Unit :=
  if e.hasOwnership then
    attempt o
      { index, operation := .chown, path
        failure := "Can't chown " ++ path.toText
        metadata := [("owner", .ofOption .text e.owner), ("group", .ofOption .text e.group)] }
      (.setOwner path e.owner e.group (!e.isSymlink))
  else pure ()

/-- Enters recorded directories, one for each level further down. -/
def descend (o : Options) (index : Nat) : Nat → Cursor → Build Cursor
  | 0, cursor => pure cursor
  | n + 1, cursor =>
    match cursor.below? with
    | .error f => throw (.stray f)
    | .ok none => do
      let here := cursor.location
      let a : Attempt :=
        { kind := .navigation, index, operation := .enter, path := here, failure := [] }
      let reason : Text := "No directory to descend into"
      tell o a (some reason)
      throw (.located ⟨.navigation, index, here, .enter, reason,
        "Can't descend from " ++ here.toText ++ ": no directory was created there"⟩)
    | .ok (some target) => do
      attempt o
        { kind := .navigation, index, operation := .enter, path := target
          failure := "Can't enter directory " ++ target.toText }
        (.visit target)
      descend o index n { cursor with depth := cursor.depth + 1 }

/-- Returns to the directory above, once for each level less. -/
def ascend (o : Options) (index : Nat) : Nat → Cursor → Build Cursor
  | 0, cursor => pure cursor
  | n + 1, cursor => do
    attempt o
      { kind := .navigation, index, operation := .leave, path := cursor.above
        failure := "Can't return to directory " ++ cursor.above.toText }
      (.visit cursor.above)
    ascend o index n { cursor with depth := cursor.depth - 1 }

def navigate (o : Options) (index : Nat) (previous level : Int) (cursor : Cursor) : Build Cursor :=
  if previous < level then descend o index (level - previous).toNat cursor
  else ascend o index (previous - level).toNat cursor

/-- Goes to the level of an entry from that of the one before. The first entry is built where the
cursor stands. -/
def arrive (o : Options) (index : Nat) (previous : Option Int) (level : Int) (cursor : Cursor) :
    Build Cursor :=
  match previous with
  | none => pure cursor
  | some previous => navigate o index previous level cursor

def place (index : Nat) (cursor : Cursor) (name : Text) : Build Path :=
  match Path.compose cursor.root cursor.segments name with
  | .ok path => pure path
  | .error refusal =>
    let path := cursor.location.join name
    throw (.located ⟨.creation, index, path, .resolve, refusal.reason,
      "Can't create " ++ path.toText ++ ": " ++ refusal.reason⟩)

def buildEntry (o : Options) (index : Nat) (previous : Option Int) (cursor : Cursor) (e : Entry) :
    Build (Path × Cursor) := do
  let cursor ← arrive o index previous e.level cursor
  let path ← place index cursor e.name
  buildNode o index e path
  let cursor := if e.isDirectory then cursor.record e.level e.name else cursor
  setOwner o index e path
  return (path, cursor)

/-- The paths of the entries, in their order. -/
def buildFrom (o : Options) (index : Nat) (previous : Option Int) (cursor : Cursor) :
    List Entry → Build (List Path)
  | [] => pure []
  | e :: rest => do
    let (path, cursor) ← buildEntry o index previous cursor e
    let paths ← buildFrom o (index + 1) (some e.level) cursor rest
    return path :: paths

def entries (o : Options) (root : Path) (es : List Entry) : Run (Except Stop (List Path)) :=
  (buildFrom o 0 none { root } es).run

end Build

end TreePlan
