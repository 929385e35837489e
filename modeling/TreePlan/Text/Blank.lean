import TreePlan.Text.Basic

/-!
White space: the characters that end a bare word, make up an indentation and may stand around a
symlink arrow. It is the set of Unicode's bidirectional classes B, S and WS and category Zs.
-/

namespace TreePlan

def CodePoint.isBlank (c : CodePoint) : Bool :=
  (0x09 ≤ c.val && c.val ≤ 0x0D) || (0x1C ≤ c.val && c.val ≤ 0x20) || c.val == 0x85 || c.val == 0xA0
    || c.val == 0x1680 || (0x2000 ≤ c.val && c.val ≤ 0x200A) || c.val == 0x2028 || c.val == 0x2029
    || c.val == 0x202F || c.val == 0x205F || c.val == 0x3000

namespace Text

def dropBlanks (t : Text) : Text := t.dropWhile CodePoint.isBlank

def leadingBlanks (t : Text) : Text := t.takeWhile CodePoint.isBlank

def isBlank (t : Text) : Bool := t.all CodePoint.isBlank

def trim (t : Text) : Text := (dropBlanks t.dropBlanks.reverse).reverse

theorem leadingBlanks_append_dropBlanks (t : Text) : t.leadingBlanks ++ t.dropBlanks = t :=
  List.takeWhile_append_dropWhile

end Text

end TreePlan
