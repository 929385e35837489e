import TreePlan.FileSystem.Basic

/-!
Where a path leads. The walk goes name by name from a directory that may be searched, replacing a
symlink by its target; the last name is replaced only where the caller follows links. An empty name,
such as the one after a slash at the end, asks for a directory and leads nowhere.
-/

namespace TreePlan.FileSystem

inductive Spot where
  /-- There is a node. -/
  | found (address : Address) (node : Node)
  /-- There is none, but a directory to hold it. -/
  | vacant (parent : Address) (name : Name)
deriving Repr

/-- What becomes of the last name. -/
inductive Ending where
  /-- A symlink is itself what is looked for. -/
  | kept
  | followed
  /-- A file is to be there, old or new; a slash after its name would make it a directory. -/
  | made
deriving DecidableEq, Repr

def maxName : Nat := 255

/-- How many symlinks one walk may replace. -/
def maxLinks : Nat := 40

def isHere (n : Name) : Bool := n == [0x2E]

def isUp (n : Name) : Bool := n == [0x2E, 0x2E]

def isAbsolute (b : Bytes) : Bool := b.head? == some slash

def walk (fs : FileSystem) (ending : Ending) (links : Nat) (dir : Address) :
    List Name → Except SystemFault Spot
  | [] =>
    match fs.node? dir with
    | some node => .ok (.found dir node)
    | none => .error .notFound
  | name :: rest =>
    match fs.node? dir with
    | none => .error .notFound
    | some here =>
      if !here.isDirectory then .error .notDirectory
      else if name.isEmpty then walk fs ending links dir rest
      else if !here.grants .search then .error .accessDenied
      else if isHere name then walk fs ending links dir rest
      else if isUp name then walk fs ending links dir.dropLast rest
      else if ending = .made && !rest.isEmpty && rest.all List.isEmpty then .error .isDirectory
      else if maxName < name.length then .error .nameTooLong
      else
        match fs.node? (dir ++ [name]) with
        | none =>
          if rest.all List.isEmpty then .ok (.vacant dir name) else .error .notFound
        | some node =>
          match node.target? with
          | none => walk fs ending links (dir ++ [name]) rest
          | some target =>
            if ending = .kept && rest.isEmpty then .ok (.found (dir ++ [name]) node)
            else
              match links with
              | 0 => .error .tooManyLinks
              | links + 1 =>
                if target.isEmpty then .error .notFound
                else
                  walk fs ending links (if isAbsolute target then [] else dir)
                    (splitSlashes target ++ rest)
termination_by names => (links, names.length)
decreasing_by
  · exact Prod.Lex.right _ (by simp)
  · exact Prod.Lex.right _ (by simp)
  · exact Prod.Lex.right _ (by simp)
  · exact Prod.Lex.right _ (by simp)
  · exact Prod.Lex.left _ _ (by omega)

def locateBytes (fs : FileSystem) (ending : Ending) (b : Bytes) : Except SystemFault Spot :=
  if b.isEmpty then .error .notFound
  else if Path.maxBytes < b.length then .error .nameTooLong
  else
    walk fs ending maxLinks (if isAbsolute b then [] else fs.workingDirectory) (splitSlashes b)

def locate (fs : FileSystem) (ending : Ending) (path : Text) : Except Failure Spot := do
  (fs.locateBytes ending (← systemBytes path)).mapError Failure.system

def find (fs : FileSystem) (ending : Ending) (path : Text) : Except Failure (Address × Node) := do
  match ← fs.locate ending path with
  | .found address node => return (address, node)
  | .vacant _ _ => throw (.system .notFound)

/-- The node at a path, links followed, if there is one. -/
def look? (fs : FileSystem) (path : Text) : Except Failure (Option Node) :=
  match fs.find .followed path with
  | .ok (_, node) => .ok (some node)
  | .error (.system fault) =>
    if fault.isAbsence then .ok none else .error (.system fault)
  | .error f => if f.kind.isValue then .ok none else .error f

def «exists» (fs : FileSystem) (path : Text) : Except Failure Bool :=
  (fs.look? path).map Option.isSome

def isDirectory (fs : FileSystem) (path : Text) : Except Failure Bool :=
  (fs.look? path).map fun n => n.any Node.isDirectory

def isFile (fs : FileSystem) (path : Text) : Except Failure Bool :=
  (fs.look? path).map fun n => n.any Node.isFile

def readFile (fs : FileSystem) (path : Text) : Except Failure Bytes := do
  let (_, node) ← fs.find .followed path
  if !node.grants .read then throw (.system .accessDenied)
  match node.kind with
  | .file content => return content
  | _ => throw (.system .isDirectory)

end TreePlan.FileSystem
