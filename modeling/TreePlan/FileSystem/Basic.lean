import TreePlan.Failure
import TreePlan.Path.Basic

/-!
A file system as the nodes at its addresses. An address is the list of names from the root, a name the
bytes it has on disk. The state holds no more than later operations can see: kinds, contents, link
targets, modes, owners and the working directory.
-/

namespace TreePlan

abbrev Name := Bytes

abbrev Address := List Name

inductive NodeKind where
  | directory
  | file (content : Bytes)
  | symlink (target : Bytes)
deriving DecidableEq, Repr

/-- What one may do with a node, as far as its mode goes. -/
inductive Right where
  | read
  | write
  | search
deriving DecidableEq, Repr

/-- The weight of a right in a digit of a mode. -/
def Right.weight : Right → Nat
  | .read => 4
  | .write => 2
  | .search => 1

def hasBit (mode bit : Nat) : Bool := mode / bit % 2 == 1

structure Node where
  kind : NodeKind
  mode : Nat
  owner : Nat := 0
  group : Nat := 0
deriving DecidableEq, Repr

namespace Node

def isDirectory (n : Node) : Bool := n.kind == .directory

def isFile (n : Node) : Bool :=
  match n.kind with
  | .file _ => true
  | _ => false

def target? (n : Node) : Option Bytes :=
  match n.kind with
  | .symlink target => some target
  | _ => none

def setuid : Nat := 0o4000

def setgid : Nat := 0o2000

/-- New nodes in a directory with the setgid bit take its group, and new directories the bit. -/
def isSetgid (n : Node) : Bool := hasBit n.mode setgid

/-- The user of a file system is root, of the group root. -/
def user : Nat := 0

def isOwn (n : Node) : Bool := n.owner == user

/-- The weight of the digit of a mode that the user falls under. -/
def digit (n : Node) : Nat :=
  if n.isOwn then 0o100 else if n.group = user then 0o010 else 1

/-- Modes hold for root as for anyone else. -/
def grants (n : Node) (r : Right) : Bool := hasBit n.mode (n.digit * r.weight)

end Node

structure FileSystem where
  nodes : List (Address × Node)
  workingDirectory : Address
deriving Repr

namespace FileSystem

def node? (fs : FileSystem) (a : Address) : Option Node := fs.nodes.lookup a

def put (fs : FileSystem) (a : Address) (n : Node) : FileSystem :=
  if (fs.node? a).isSome then
    { fs with nodes := fs.nodes.map fun p => if p.1 = a then (a, n) else p }
  else { fs with nodes := fs.nodes ++ [(a, n)] }

def rootNode : Node := ⟨.directory, 0o755, 0, 0⟩

/-- Empty but for the directories down to the working directory. -/
def withWorkingDirectory (a : Address) : FileSystem :=
  ⟨(List.range (a.length + 1)).map fun k => (a.take k, rootNode), a⟩

theorem lookup_cons (p : Address × Node) (nodes : List (Address × Node)) (a : Address) :
    List.lookup a (p :: nodes) = if a = p.1 then some p.2 else nodes.lookup a := by
  rw [List.lookup_cons]
  by_cases h : a = p.1
  · simp [h]
  · have : (a == p.1) = false := by simpa using h
    rw [this, if_neg h]

theorem lookup_replace_self {nodes : List (Address × Node)} {a : Address} (n : Node)
    (h : (nodes.lookup a).isSome) :
    (nodes.map fun p => if p.1 = a then (a, n) else p).lookup a = some n := by
  induction nodes with
  | nil => simp at h
  | cons p r ih =>
    rw [List.map_cons, lookup_cons]
    by_cases hp : p.1 = a
    · simp [hp]
    · rw [lookup_cons, if_neg (Ne.symm hp)] at h
      simp [hp, ih h, Ne.symm hp]

theorem lookup_replace_of_ne (nodes : List (Address × Node)) {a b : Address} (n : Node)
    (h : b ≠ a) :
    (nodes.map fun p => if p.1 = a then (a, n) else p).lookup b = nodes.lookup b := by
  induction nodes with
  | nil => rfl
  | cons p r ih =>
    rw [List.map_cons, lookup_cons, lookup_cons, ih]
    by_cases hp : p.1 = a <;> simp [hp, h]

/-- What is put at an address is there, and all else is as it was. -/
theorem node?_put (fs : FileSystem) (a b : Address) (n : Node) :
    (fs.put a n).node? b = if b = a then some n else fs.node? b := by
  unfold put
  split
  · next h =>
    split
    · next hb =>
      subst hb
      exact lookup_replace_self n h
    · next hb => exact lookup_replace_of_ne _ n hb
  · next h =>
    have ha : fs.nodes.lookup a = none := Option.not_isSome_iff_eq_none.1 h
    simp only [node?, List.lookup_append, lookup_cons, List.lookup_nil]
    split
    · next hb =>
      subst hb
      simp [ha]
    · simp

theorem workingDirectory_put (fs : FileSystem) (a : Address) (n : Node) :
    (fs.put a n).workingDirectory = fs.workingDirectory := by
  unfold put
  split <;> rfl

end FileSystem

/-! Paths as the system takes them. -/

def Path.maxBytes : Nat := 4095

/-- The bytes of a path or of a link target. -/
def systemBytes (t : Text) : Except Failure Bytes :=
  match Utf8.nameFault? t with
  | some (c, start, stop) => .error (.unencodable ⟨.utf8, c, start, stop⟩)
  | none => if t.contains CodePoint.null then .error .nullByte else .ok (Utf8.encodeName t)

def slash : UInt8 := 0x2F

def splitSlashes : Bytes → List Name
  | [] => [[]]
  | b :: r =>
    if b = slash then [] :: splitSlashes r
    else match splitSlashes r with
      | [] => [[b]]
      | n :: ns => (b :: n) :: ns

end TreePlan
