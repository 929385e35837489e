import TreePlan.Path.Basic

/-!
Paths of entries. Each name below the root has to be one name that leads neither up nor elsewhere;
the first that is not is refused.
-/

namespace TreePlan

/-- Why a place is not built in. -/
inductive Refusal where
  | emptyPrefix
  | missingPrefix (path : Text)
  | emptyName
  | dotName (name : Text)
  | separatorInName (name : Text)
deriving DecidableEq, Repr

namespace Refusal

def reason : Refusal → Text
  | .emptyPrefix => "Prefix is empty."
  | .missingPrefix path => "Directory must already exist: " ++ path
  | .emptyName => "Entry name is empty."
  | .dotName name => "Entry name '" ++ name ++ "' is not allowed."
  | .separatorInName name => "Entry name '" ++ name ++ "' contains a path separator."

def hint : Refusal → Text
  | .emptyPrefix => "Omit the prefix to create entries in the current directory."
  | .missingPrefix _ => "Create the prefix directory before materializing a layout into it."
  | .emptyName => "Give every layout entry a non-empty name."
  | .dotName _ => "Entry names must not navigate; nest entries by indentation instead."
  | .separatorInName _ => "Nest entries by indentation instead of embedding separators."

end Refusal

namespace Path

def refusalOf? (name : Text) : Option Refusal :=
  if name.isEmpty then some .emptyName
  else if name = "." ∨ name = ".." then some (.dotName name)
  else if name.contains '/' then some (.separatorInName name)
  else none

def compose (root : Path) (segments : List Text) (name : Text) : Except Refusal Path :=
  match (segments ++ [name]).findSome? refusalOf? with
  | some refusal => .error refusal
  | none => .ok (root.joinAll (segments ++ [name]))

end Path

end TreePlan
