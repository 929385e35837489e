import TreePlan.Value

/-!
What one line of a layout asks for: a directory, a symlink or a file, at a level of nesting, with a
mode, owners and content where the line gives them.
-/

namespace TreePlan

structure Entry where
  name : Text
  level : Int
  line : Nat
  isDirectory : Bool := false
  target : Option Text := none
  mode : Option Int := none
  modeText : Option Text := none
  owner : Option Text := none
  group : Option Text := none
  content : Option Text := none
  extras : Fields := []

namespace Entry

def isSymlink (e : Entry) : Bool := e.target.isSome

def hasOwnership (e : Entry) : Bool := e.owner.isSome || e.group.isSome

end Entry

end TreePlan
