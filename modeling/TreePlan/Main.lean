import Std.Time.DateTime.Timestamp
import TreePlan.CommandLine.Run
import TreePlan.Trace.Moment

/-!
The program on the machine it runs on. Paths that no string can name, new symlinks and new owners are
beyond what this host can do, and it says so.
-/

namespace TreePlan.Machine

/-- A text as a reader sees it, lone surrogates by their numbers. -/
def shown (t : Text) : String :=
  Text.toStringWith (fun _ => "") (t.flatMap fun c => if c.isSurrogate then c.numbered else [c])

/-- Numbers come with either sign. -/
def refusal (code : UInt32) (details : String) : Failure :=
  let code : Int := code.toInt32.toInt.natAbs
  match SystemFault.ofCode? code with
  | some fault => .system fault
  | none => .foreign (.system (some code)) details details

def failureOf : IO.Error → Failure
  | .alreadyExists _ code details | .interrupted _ code details
  | .noFileOrDirectory _ code details | .invalidArgument _ code details
  | .permissionDenied _ code details | .resourceExhausted _ code details
  | .inappropriateType _ code details | .noSuchThing _ code details
  | .otherError code details | .resourceBusy code details | .resourceVanished code details
  | .unsupportedOperation code details | .hardwareFault code details
  | .unsatisfiedConstraints code details | .illegalOperation code details
  | .protocolError code details | .timeExpired code details => refusal code details
  | e => .foreign (.system none) (toString e) (toString e)

def attempt {α : Type} (x : IO α) : ExceptT Failure IO α := .mk do
  match ← x.toBaseIO with
  | .ok a => return .ok a
  | .error e => return .error (failureOf e)

/-- The name of a path on this machine. -/
def place (path : Text) : ExceptT Failure IO String := do
  let _ ← liftM (systemBytes path)
  if path.any CodePoint.isSurrogate then throw (.system .notSupported)
  return shown path

def workingDirectory : ExceptT Failure IO Path := do
  return .ofText (toString (← attempt IO.currentDir))

/-- What stands at a path, links followed. -/
def look? (path : Text) : ExceptT Failure IO (Option IO.FS.FileType) := do
  match ← ExceptT.lift (place path).run with
  | .error f => if f.kind.isValue then return none else throw f
  | .ok name =>
    let here ← IO.currentDir
    match ← ExceptT.lift (attempt (here / name).metadata).run with
    | .ok data => return some data.type
    | .error (.system fault) =>
      if fault.isAbsence then return none else throw (.system fault)
    | .error f => throw f

def isThere (path : Text) (test : IO.FS.FileType → Bool) : ExceptT Failure IO Bool := do
  return (← look? path).any test

def isDirectory (path : Text) : ExceptT Failure IO Bool := isThere path fun t => t == .dir

/-- The longest beginning of a path that is there is resolved, and what follows stays as it is
written; the names come last first. -/
def resolve (missing : List Text) : List Text → IO Path
  | [] => return ⟨.slash, FileSystem.collapse missing⟩
  | name :: names => do
    let path := Path.mk .slash (names.reverse ++ [name])
    match ← (IO.FS.realPath (shown path.toText)).toBaseIO with
    | .ok there =>
      let there := Path.ofText (toString there)
      return ⟨there.root, FileSystem.collapse (there.parts ++ missing)⟩
    | .error _ => resolve (name :: missing) names

def realPath (path : Path) : ExceptT Failure IO Path := do
  let full := (← workingDirectory).join path.toText
  let _ ← place full.toText
  resolve [] full.parts.reverse

def readFile (path : Text) : ExceptT Failure IO Bytes := do
  return (← attempt (IO.FS.readBinFile (← place path))).toList

def append (path : Text) (content : Bytes) : ExceptT Failure IO Unit := do
  let name ← place path
  attempt do
    let file ← IO.FS.Handle.mk name .append
    file.write ⟨content.toArray⟩

/-- Writes over the beginning of a file. -/
def overwrite (path : Text) (content : Bytes) : ExceptT Failure IO Unit := do
  let name ← place path
  attempt do
    let file ← IO.FS.Handle.mk name .readWrite
    file.write ⟨content.toArray⟩

def setMode (path : Text) (mode : Nat) : ExceptT Failure IO Unit := do
  attempt (IO.Prim.setAccessRights (← place path) mode.toUInt32)

def makeDirectory (path : Text) (mode : Option Int) : ExceptT Failure IO Unit := do
  let name ← place path
  let mode ← liftM (mode.mapM FileSystem.checkMode)
  attempt (IO.FS.createDir name)
  match mode with
  | none => pure ()
  | some mode => setMode path (FileSystem.newDirectoryMode FileSystem.rootNode mode)

def visit (path : Text) : ExceptT Failure IO Unit := do
  unless ← isThere path fun _ => true do throw (.system .notFound)
  unless ← isDirectory path do throw (.system .notDirectory)

/-- The owner is looked up, so that an unknown one is told from one that cannot be set. -/
def setOwner (owner group : Option Text) : ExceptT Failure IO Unit := do
  let _ ← liftM (Account.resolve .user owner)
  let _ ← liftM (Account.resolve .group group)
  throw (.system .notSupported)

def answer : Call → ExceptT Failure IO Unit
  | .visit path => visit path.toText
  | .makeDirectory path mode => makeDirectory path.toText mode
  | .createFile path => do
    let name ← place path.toText
    attempt (discard (IO.FS.Handle.mk name .writeNew))
  | .write path content => overwrite path.toText content
  | .close _ => pure ()
  | .setMode path mode => do setMode path.toText (← liftM (FileSystem.checkMode mode))
  | .link _ _ => throw (.system .notSupported)
  | .setOwner _ owner group _ => setOwner owner group
  | .observe _ => pure ()

def now : IO Text := do
  let time ← Std.Time.Timestamp.now
  return Moment.toText ⟨time.toMillisecondsSinceUnixEpoch.val.toNat⟩

partial def readAll (stream : IO.FS.Stream) (read : ByteArray) : IO ByteArray := do
  let piece ← stream.read 65536
  if piece.isEmpty then return read
  readAll stream (read ++ piece)

def host : Host IO where
  workingDirectory := workingDirectory
  realPath := realPath
  «exists» path := isThere path fun _ => true
  isDirectory := isDirectory
  isFile path := isThere path fun t => t == .file
  readFile := readFile
  makeDirectories path := do attempt (IO.FS.createDirAll (← place path.toText))
  append := append
  answer call := (answer call).run
  now := now
  input := return (← readAll (← IO.getStdin) .empty).toList

def report (exit : CommandLine.Exit) : IO UInt32 := do
  (← IO.getStdout).putStr (shown exit.output)
  match exit.complaint with
  | none => pure ()
  | some complaint => (← IO.getStderr).putStrLn (shown complaint.line)
  return exit.code.toUInt32

end TreePlan.Machine

open TreePlan in
def main (args : List String) : IO UInt32 := do
  match ← (CommandLine.run Machine.host (args.map Text.ofString)).run with
  | .ok exit => Machine.report exit
  | .error failure => do
    (← IO.getStderr).putStrLn (Machine.shown failure.text)
    return 1
