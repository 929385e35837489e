import TreePlan.FileSystem.Basic

/-!
What is to be seen below the working directory. A directory that may not be read keeps to itself what
it holds. What is listed and cannot be looked at makes the listing fail.
-/

namespace TreePlan.FileSystem

def grants (fs : FileSystem) (r : Right) (a : Address) : Bool :=
  (fs.node? a).any fun n => n.grants r

/-- The directories that lead from the working directory to what has these names below it. -/
def leading (fs : FileSystem) (names : List Name) : List Address :=
  (List.range names.length).map fun k => fs.workingDirectory ++ names.take k

/-- Whether a node below the working directory can be looked at; of a file, also what it holds. -/
def isOpen (fs : FileSystem) (names : List Name) (n : Node) : Bool :=
  (fs.leading names).all (fs.grants .search) && (!n.isFile || n.grants .read)

/-- What stands below the working directory, by the names that lead there. -/
def below (fs : FileSystem) : List (List Name × Node) :=
  fs.nodes.filterMap fun p =>
    match fs.workingDirectory.isPrefixOf? p.1 with
    | none | some [] => none
    | some names => some (names, p.2)

def listing (fs : FileSystem) : Except Failure (List (List Name × Node)) :=
  let listed := fs.below.filter fun p => (fs.leading p.1).all (fs.grants .read)
  if listed.all fun p => fs.isOpen p.1 p.2 then .ok listed else .error (.system .accessDenied)

end TreePlan.FileSystem
