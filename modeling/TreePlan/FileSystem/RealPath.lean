import TreePlan.FileSystem.Walk

/-!
The real path of a path: absolute, without symlinks as far as they lead somewhere, and with `..` gone.
What is not there is kept as it is written. A symlink that leads back to itself is left unresolved,
and then the whole path fails.
-/

namespace TreePlan.FileSystem

/-- The target of a path that is a symlink. A path that leads nowhere is none. -/
def linkTarget? (fs : FileSystem) (path : Text) : Except Failure (Option Bytes) :=
  match fs.find .kept path with
  | .ok (_, node) => .ok node.target?
  | .error f => if f.kind.isSystem then .ok none else .error f

def dots : Text := ".."

/-- One directory up, by name alone; from the working directory it stays a `..`. -/
def upFrom (p : Path) : Path :=
  match p.root, p.parts.getLast? with
  | .relative, none => ⟨p.root, [dots]⟩
  | _, none => p
  | _, some last => if last = dots then ⟨p.root, p.parts ++ [dots]⟩ else p.parent

/-- Symlinks that were met: with the path they lead to, or none while they are being followed. -/
abbrev Met := List (Path × Option Path)

structure Resolved where
  path : Path
  complete : Bool
  met : Met

def startOf (dir : Path) (target : Text) : Path :=
  if target.head? = some (CodePoint.ofChar '/') then ⟨.slash, []⟩ else dir

/-- Follows names from a directory; the first number bounds how many symlinks are open at once. -/
def resolveFrom (fs : FileSystem) (depth : Nat) (dir : Path) (met : Met) :
    List Text → Except Failure Resolved
  | [] => .ok ⟨dir, true, met⟩
  | name :: rest =>
    if !Path.isPart name then resolveFrom fs depth dir met rest
    else if name = dots then resolveFrom fs depth (upFrom dir) met rest
    else
      let next := dir.child name
      match fs.linkTarget? next.toText with
      | .error f => .error f
      | .ok none => resolveFrom fs depth next met rest
      | .ok (some target) =>
        match met.lookup next with
        | some (some path) => resolveFrom fs depth path met rest
        | some none => .ok ⟨next.join (Text.unlines "/" rest), false, met⟩
        | none =>
          match depth with
          | 0 => .ok ⟨next.join (Text.unlines "/" rest), false, met⟩
          | depth + 1 =>
            let target := Utf8.decodeName target
            match resolveFrom fs depth (startOf dir target) ((next, none) :: met)
                (Text.splitOn '/' target) with
            | .error f => .error f
            | .ok inner =>
              if inner.complete then
                resolveFrom fs (depth + 1) inner.path ((next, some inner.path) :: inner.met) rest
              else .ok ⟨inner.path.join (Text.unlines "/" rest), false, inner.met⟩
termination_by names => (depth, names.length)
decreasing_by
  · exact Prod.Lex.right _ (by simp)
  · exact Prod.Lex.right _ (by simp)
  · exact Prod.Lex.right _ (by simp)
  · exact Prod.Lex.right _ (by simp)
  · exact Prod.Lex.left _ _ (by omega)
  · exact Prod.Lex.right _ (by simp)

/-- Takes each `..` back with the name before it. -/
def collapse (names : List Text) : List Text :=
  (names.foldl (fun back name => if name = dots then back.drop 1 else name :: back) []).reverse

def currentPath (fs : FileSystem) : Path := ⟨.slash, fs.workingDirectory.map Utf8.decodeName⟩

/-- The working directory, unless it has been removed. -/
def currentDirectory (fs : FileSystem) : Except Failure Path :=
  if (fs.node? fs.workingDirectory).isSome then .ok fs.currentPath else .error (.system .notFound)

def absolute (fs : FileSystem) (p : Path) : Path :=
  let full := fs.currentPath.join p.toText
  ⟨full.root, collapse full.parts⟩

/-- Each symlink has at most one name for every directory above the working one. -/
def linkDepth (fs : FileSystem) : Nat := fs.nodes.length * (fs.workingDirectory.length + 3)

def realPath (fs : FileSystem) (p : Path) : Except Failure Path := do
  let start : Path := if p.isAbsolute then ⟨.slash, []⟩ else .here
  let resolved ← resolveFrom fs fs.linkDepth start [] p.parts
  let path := fs.absolute resolved.path
  match fs.find .followed path.toText with
  | .error (.system .tooManyLinks) => throw (.linkLoop path.toText)
  | .error f => if f.kind.isSystem then return path else throw f
  | .ok _ => return path

end TreePlan.FileSystem
