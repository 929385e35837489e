import TreePlan.Build.Run
import TreePlan.FileSystem.Change
import TreePlan.FileSystem.RealPath

/-!
What the program asks of the machine it runs on. A file system as a state is one such machine.
-/

namespace TreePlan

structure Host (m : Type → Type) where
  workingDirectory : ExceptT Failure m Path
  realPath : Path → ExceptT Failure m Path
  «exists» : Text → ExceptT Failure m Bool
  isDirectory : Text → ExceptT Failure m Bool
  isFile : Text → ExceptT Failure m Bool
  readFile : Text → ExceptT Failure m Bytes
  /-- Makes a directory and those above it, unless they are there. -/
  makeDirectories : Path → ExceptT Failure m Unit
  append : Text → Bytes → ExceptT Failure m Unit
  /-- Answers the calls of a run, but for those to the observer. -/
  answer : Call → m Answer
  now : m Text
  input : m Bytes

namespace FileSystem

/-- Goes on from the changed state, or stays as it is and tells why. -/
def change (f : FileSystem → Except Failure FileSystem) : StateM FileSystem Answer := fun fs =>
  match f fs with
  | .ok fs => (.ok (), fs)
  | .error failure => (.error failure, fs)

/-- Looks without changing anything. -/
def view {α : Type} (f : FileSystem → α) : StateM FileSystem α := fun fs => (f fs, fs)

/-- A directory is visited to see that it is there. -/
def visit (fs : FileSystem) (path : Text) : Except Failure FileSystem := do
  unless ← fs.exists path do throw (.system .notFound)
  unless ← fs.isDirectory path do throw (.system .notDirectory)
  return fs

/-- Answers in view of the accounts of the machine. -/
def answerIn (accounts : Account.Register) : Call → StateM FileSystem Answer
  | .visit path => change fun fs => fs.visit path.toText
  | .makeDirectory path mode => change fun fs => fs.makeDirectory path.toText mode
  | .createFile path => change fun fs => fs.createFile path.toText
  | .write path content => change fun fs => fs.overwrite path.toText content
  | .close _ => pure (.ok ())
  | .setMode path mode => change fun fs => fs.setMode path.toText mode
  | .link target path => change fun fs => fs.link target path.toText
  | .setOwner path owner group follow =>
    change fun fs => fs.setOwnerIn accounts path.toText owner group follow
  | .observe _ => pure (.ok ())

def answer : Call → StateM FileSystem Answer := answerIn Account.sole

def host (now : Text) (input : Bytes) : Host (StateM FileSystem) where
  workingDirectory := .mk (view currentDirectory)
  realPath path := .mk (view fun fs => fs.realPath path)
  «exists» path := .mk (view fun fs => fs.exists path)
  isDirectory path := .mk (view fun fs => fs.isDirectory path)
  isFile path := .mk (view fun fs => fs.isFile path)
  readFile path := .mk (view fun fs => fs.readFile path)
  makeDirectories path := .mk (makeDirectories path)
  append path content := .mk (change fun fs => fs.append path content)
  answer := answer
  now := pure now
  input := pure input

end FileSystem

end TreePlan
