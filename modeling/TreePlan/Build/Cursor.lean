import TreePlan.Failure
import TreePlan.Path.Basic

/-!
Where a run stands: below a root, at a depth among the directories it has recorded, one for each level.
A depth below zero counts from the end of the records, as positions from the end of a list do.
-/

namespace TreePlan

structure Cursor where
  root : Path
  records : List Text := []
  depth : Int := 0
deriving DecidableEq, Repr

namespace Cursor

/-- The items before a position; one below zero counts from the end. -/
def before {α : Type} (xs : List α) (position : Int) : List α :=
  if 0 ≤ position then xs.take position.toNat else xs.take (xs.length - position.natAbs)

/-- The item at a position; one below zero counts from the end. -/
def item? {α : Type} (xs : List α) (position : Int) : Option α :=
  if 0 ≤ position then xs[position.toNat]?
  else if position.natAbs ≤ xs.length then xs[xs.length - position.natAbs]?
  else none

def segments (c : Cursor) : List Text := before c.records c.depth

def location (c : Cursor) : Path := c.root.joinAll c.segments

/-- No position lies further from the end. -/
def positionLimit : Int := 0x8000000000000000

/-- The directory recorded last one level down, if there is one. -/
def below? (c : Cursor) : Except Failure (Option Path) :=
  if (c.records.length : Int) ≤ c.depth then .ok none
  else if c.depth < -positionLimit then .error .positionTooFar
  else match item? c.records c.depth with
    | none => .error .noRecord
    | some name => .ok (some (c.location.join name))

def above (c : Cursor) : Path := c.root.joinAll (before c.records (c.depth - 1))

/-- Records a directory at a level and forgets those at it and deeper. -/
def record (c : Cursor) (level : Int) (name : Text) : Cursor :=
  { c with records := before c.records level ++ [name] }

end Cursor

end TreePlan
