import TreePlan.Account
import TreePlan.FileSystem.Walk

/-!
What operations do to a file system, with the usual mask, which takes the right to write from the group
and from others. A failed operation changes nothing.
-/

namespace TreePlan.FileSystem

/-- Bits of a mode as the system takes it: permissions and the three bits before them. -/
def modeBits (mode : Int) : Nat := (mode % 4096).toNat

def modeLimit : Int := 0x80000000

/-- A mode has to fit in a word of 32 bits with a sign. -/
def checkMode (mode : Int) : Except Failure Nat :=
  if mode < -modeLimit ∨ modeLimit ≤ mode then .error .modeOutOfRange else .ok (modeBits mode)

/-- The mask takes two bits; of the first three a new directory can have but the last. -/
def newDirectoryMode (parent : Node) (mode : Nat) : Nat :=
  (mode &&& 0o1755) ||| (if parent.isSetgid then Node.setgid else 0)

def groupWithin (parent : Node) : Nat := if parent.isSetgid then parent.group else Node.user

/-- Puts a node into a directory that may be written to. -/
def addTo (fs : FileSystem) (dir : Address) (name : Name) (make : Node → Node) :
    Except Failure FileSystem :=
  match fs.node? dir with
  | none => .error (.system .notFound)
  | some parent =>
    if parent.grants .write then .ok (fs.put (dir ++ [name]) (make parent))
    else .error (.system .accessDenied)

/-- Makes a node where there is none. -/
def add (fs : FileSystem) (path : Text) (make : Node → Node) : Except Failure FileSystem := do
  match ← fs.locate .kept path with
  | .found _ _ => throw (.system .exists)
  | .vacant dir name => fs.addTo dir name make

def makeDirectory (fs : FileSystem) (path : Text) (mode : Option Int) :
    Except Failure FileSystem := do
  let _ ← systemBytes path
  let mode ← checkMode (mode.getD 0o777)
  fs.add path fun parent => ⟨.directory, newDirectoryMode parent mode, Node.user, groupWithin parent⟩

def newFile (content : Bytes) (parent : Node) : Node :=
  ⟨.file content, 0o644, Node.user, groupWithin parent⟩

def createFile (fs : FileSystem) (path : Text) : Except Failure FileSystem :=
  fs.add path (newFile [])

def dropBit (mode bit : Nat) : Nat := if hasBit mode bit then mode - bit else mode

/-- Who writes to a file or gives it away takes its setuid bit, and its setgid bit where the group may
execute. -/
def modeOnceTouched (mode : Nat) : Nat :=
  let mode := dropBit mode Node.setuid
  if hasBit mode 0o010 then dropBit mode Node.setgid else mode

/-- A file with the content that comes of writing some bytes to it. To write none is not to write. -/
def written (content : Bytes) (change : Bytes → Bytes) (n : Node) : Option Node :=
  match n.kind with
  | .file old =>
    if content.isEmpty then some n
    else some { n with kind := .file (change old), mode := modeOnceTouched n.mode }
  | _ => none

/-- Appends to a file, which is made if it is not there, through symlinks too. -/
def append (fs : FileSystem) (path : Text) (content : Bytes) : Except Failure FileSystem := do
  match ← fs.locate .made path with
  | .found address node =>
    match written content (fun old => old ++ content) node with
    | none => throw (.system .isDirectory)
    | some new =>
      if !node.grants .write then throw (.system .accessDenied)
      return fs.put address new
  | .vacant dir name => fs.addTo dir name (newFile content)

/-- Writes over the beginning of a file that has been made and is still open. -/
def overwrite (fs : FileSystem) (path : Text) (content : Bytes) : Except Failure FileSystem := do
  let (address, node) ← fs.find .followed path
  match written content (fun old => content ++ old.drop content.length) node with
  | none => throw (.system .isDirectory)
  | some new => return fs.put address new

def setMode (fs : FileSystem) (path : Text) (mode : Int) : Except Failure FileSystem := do
  let _ ← systemBytes path
  let mode ← checkMode mode
  let (address, node) ← fs.find .followed path
  if !node.isOwn then throw (.system .notPermitted)
  return fs.put address { node with mode }

def link (fs : FileSystem) (target path : Text) : Except Failure FileSystem := do
  let target ← systemBytes target
  let _ ← systemBytes path
  if target.isEmpty then throw (.system .notFound)
  if Path.maxBytes < target.length then throw (.system .nameTooLong)
  fs.add path fun parent => ⟨.symlink target, 0o777, Node.user, groupWithin parent⟩

/-- The user may give away none but its own nodes, and to none but itself, its group or the group that
a node has. -/
def mayGive (n : Node) (owner group : Option Nat) : Bool :=
  owner.all (fun o => n.isOwn && o == Node.user)
    && group.all (fun g => n.isOwn && (g == Node.user || g == n.group))

def setOwnerIn (accounts : Account.Register) (fs : FileSystem) (path : Text)
    (owner group : Option Text) (follow : Bool) : Except Failure FileSystem := do
  let owner ← Account.resolveIn accounts .user owner
  let group ← Account.resolveIn accounts .group group
  let _ ← systemBytes path
  let owner ← Account.checked .user owner
  let group ← Account.checked .group group
  let (address, node) ← fs.find (if follow then .followed else .kept) path
  if !mayGive node owner group then throw (.system .notPermitted)
  return fs.put address
    { node with
      mode := if node.isDirectory then node.mode else modeOnceTouched node.mode
      owner := owner.getD node.owner
      group := group.getD node.group }

def setOwner (fs : FileSystem) (path : Text) (owner group : Option Text) (follow : Bool) :
    Except Failure FileSystem :=
  fs.setOwnerIn Account.sole path owner group follow

/-- Makes a directory and those above it that are missing. What stands there already as a directory is
no failure. -/
def makeDirectories (path : Path) (fs : FileSystem) : Except Failure Unit × FileSystem :=
  attempt fs path.parts.length
where
  /-- The directory of the first names of the path. -/
  attempt (fs : FileSystem) (n : Nat) : Except Failure Unit × FileSystem :=
    let here := (Path.mk path.root (path.parts.take n)).toText
    match fs.makeDirectory here none with
    | .ok fs => (.ok (), fs)
    | .error (.system .notFound) =>
      match n with
      | 0 => (.error (.system .notFound), fs)
      | n + 1 =>
        match attempt fs n with
        | (.error f, fs) => (.error f, fs)
        | (.ok _, fs) =>
          match fs.makeDirectory here none with
          | .ok fs => (.ok (), fs)
          | .error (.system .notFound) => (.error (.system .notFound), fs)
          | .error f => (tolerate fs here f, fs)
    | .error f => (tolerate fs here f, fs)
  tolerate (fs : FileSystem) (here : Text) (f : Failure) : Except Failure Unit :=
    match f with
    | .system _ =>
      match fs.isDirectory here with
      | .ok true => .ok ()
      | .ok false => .error f
      | .error f => .error f
    | _ => .error f

end TreePlan.FileSystem
