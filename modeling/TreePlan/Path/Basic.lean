import TreePlan.Text.Basic

/-!
Paths as they are written: a root and names. Empty names and `.` vanish, `..` stays, for what it leads
to only a file system knows. Exactly two slashes at the front are a root of their own; any other number
of them is one slash.
-/

namespace TreePlan

inductive Path.Root where
  | relative
  | slash
  | doubleSlash
deriving DecidableEq, Repr

structure Path where
  root : Path.Root
  parts : List Text
deriving DecidableEq, Repr

namespace Path

def Root.ofText (t : Text) : Root :=
  match (t.takeWhile fun c : CodePoint => c = '/').length with
  | 0 => .relative
  | 2 => .doubleSlash
  | _ => .slash

def Root.toText : Root → Text
  | .relative => []
  | .slash => "/"
  | .doubleSlash => "//"

def isPart (t : Text) : Bool := !t.isEmpty && t != "."

def partsOf (t : Text) : List Text := (Text.splitOn '/' t).filter isPart

def ofText (t : Text) : Path := ⟨.ofText t, partsOf t⟩

def here : Path := ⟨.relative, []⟩

/-- What has a root of its own starts afresh. -/
def join (p : Path) (t : Text) : Path :=
  match Root.ofText t with
  | .relative => ⟨p.root, p.parts ++ partsOf t⟩
  | root => ⟨root, partsOf t⟩

def joinAll (p : Path) (ts : List Text) : Path := ts.foldl join p

def toText (p : Path) : Text :=
  if p.root = .relative ∧ p.parts = [] then "." else p.root.toText ++ Text.unlines "/" p.parts

def isAbsolute (p : Path) : Bool := p.root != .relative

/-- One name further down; the name is taken as it is. -/
def child (p : Path) (name : Text) : Path := ⟨p.root, p.parts ++ [name]⟩

/-- A path without names is its own parent. -/
def parent (p : Path) : Path := ⟨p.root, p.parts.dropLast⟩

theorem partsOf_name {name : Text} (h : isPart name = true) (hs : CodePoint.ofChar '/' ∉ name) :
    partsOf name = [name] := by
  simp [partsOf, Text.splitOn_eq_singleton hs, h]

theorem rootOf_name {name : Text} (hs : CodePoint.ofChar '/' ∉ name) :
    Root.ofText name = .relative := by
  cases name with
  | nil => rfl
  | cons c r =>
    simp only [List.mem_cons, not_or] at hs
    simp [Root.ofText, List.takeWhile, Ne.symm hs.1]

/-- A name without a slash, joined to a path, is one name more. -/
theorem join_name (p : Path) {name : Text} (h : isPart name = true)
    (hs : CodePoint.ofChar '/' ∉ name) : p.join name = p.child name := by
  simp [join, rootOf_name hs, partsOf_name h hs, child]

end Path

end TreePlan
