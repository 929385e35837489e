/-!
The indentation widths that are open at a line, the deepest first. A line goes one level deeper by a
new width, or back to a width that is open.
-/

namespace TreePlan

structure Indents where
  widths : List Int
deriving DecidableEq, Repr

namespace Indents

def empty : Indents := ⟨[]⟩

/-- The first width opens level zero. -/
def level (s : Indents) : Nat := s.widths.length - 1

def current? (s : Indents) : Option Int := s.widths.head?

def push (s : Indents) (width : Int) : Indents := ⟨width :: s.widths⟩

/-- Closes all widths that were opened after the last one of this size. -/
def returnTo? (s : Indents) (width : Int) : Option Indents :=
  match s.widths.dropWhile (· ≠ width) with
  | [] => none
  | ws => some ⟨ws⟩

end Indents

end TreePlan
