/-!
Texts as lists of code points. An escape in a layout can spell every number below `0x110000`,
surrogates included, so a text holds more than a `String` can.
-/

namespace TreePlan

abbrev CodePoint := Fin 0x110000

abbrev Text := List CodePoint

abbrev Bytes := List UInt8

theorem char_toNat_lt (c : Char) : c.toNat < 0x110000 := by
  have h : c.val.toNat.isValidChar := c.valid
  simp only [Nat.isValidChar] at h
  show c.val.toNat < 0x110000
  omega

namespace CodePoint

def ofChar (c : Char) : CodePoint := ⟨c.toNat, char_toNat_lt c⟩

instance : Coe Char CodePoint := ⟨ofChar⟩

/-- Wraps beyond the last code point, so callers give numbers below it. -/
def ofNat (n : Nat) : CodePoint := Fin.ofNat _ n

theorem ofNat_val (c : CodePoint) : ofNat c.val = c := Fin.ext (Nat.mod_eq_of_lt c.isLt)

def null : CodePoint := ofNat 0

def isHighSurrogate (c : CodePoint) : Bool := 0xD800 ≤ c.val && c.val ≤ 0xDBFF

def isLowSurrogate (c : CodePoint) : Bool := 0xDC00 ≤ c.val && c.val ≤ 0xDFFF

def isSurrogate (c : CodePoint) : Bool := 0xD800 ≤ c.val && c.val ≤ 0xDFFF

/-- A high and a low surrogate together name one code point of the upper planes. -/
def ofSurrogates (high low : CodePoint) : CodePoint :=
  ofNat (0x10000 + (high.val % 0x400) * 0x400 + low.val % 0x400)

end CodePoint

namespace Text

def ofString (s : String) : Text := s.toList.map CodePoint.ofChar

instance : Coe String Text := ⟨ofString⟩

/-- Replaces each lone surrogate, which no `String` can hold, by what `f` writes for it. -/
def toStringWith (f : CodePoint → String) (t : Text) : String :=
  String.join (t.map fun c => if c.isSurrogate then f c else String.singleton (Char.ofNat c.val))

def unlines (sep : Text) (ts : List Text) : Text := List.intercalate sep ts

/-- The pieces between the separators; one more piece than there are separators. -/
def splitOn (sep : CodePoint) : Text → List Text
  | [] => [[]]
  | c :: r =>
    if c = sep then [] :: splitOn sep r
    else match splitOn sep r with
      | [] => [[c]]
      | p :: ps => (c :: p) :: ps

theorem splitOn_ne_nil (sep : CodePoint) (t : Text) : splitOn sep t ≠ [] := by
  fun_induction splitOn sep t <;> simp

theorem unlines_singleton (sep t : Text) : unlines sep [t] = t := by
  simp [unlines, List.intercalate, List.intersperse]

theorem unlines_cons_cons (sep t u : Text) (ts : List Text) :
    unlines sep (t :: u :: ts) = t ++ sep ++ unlines sep (u :: ts) := by
  simp [unlines, List.intercalate, List.intersperse]

/-- The pieces and the separators between them are the whole text. -/
theorem unlines_splitOn (sep : CodePoint) (t : Text) : unlines [sep] (splitOn sep t) = t := by
  fun_induction splitOn sep t with
  | case1 => rfl
  | case2 r ih =>
    obtain ⟨p, ps, hp⟩ := List.exists_cons_of_ne_nil (splitOn_ne_nil sep r)
    rw [hp] at ih ⊢
    rw [unlines_cons_cons, ih]
    rfl
  | case3 c r _ h => exact absurd h (splitOn_ne_nil sep r)
  | case4 c r _ p ps h ih =>
    rw [h] at ih
    cases ps with
    | nil =>
      rw [unlines_singleton] at ih ⊢
      rw [ih]
    | cons q qs =>
      rw [unlines_cons_cons] at ih ⊢
      rw [← ih]
      simp

theorem notMem_of_mem_splitOn {sep : CodePoint} {t p : Text} (h : p ∈ splitOn sep t) :
    sep ∉ p := by
  fun_induction splitOn sep t generalizing p with
  | case1 => simp_all
  | case2 r ih =>
    rcases List.mem_cons.1 h with rfl | h
    · simp
    · exact ih h
  | case3 c r hc hs => simp_all [splitOn_ne_nil]
  | case4 c r hc q qs hs ih =>
    rw [hs] at ih
    rcases List.mem_cons.1 h with rfl | h
    · have := ih (List.mem_cons_self ..)
      simp_all [eq_comm]
    · exact ih (List.mem_cons_of_mem _ h)

theorem splitOn_eq_singleton {sep : CodePoint} {t : Text} (h : sep ∉ t) : splitOn sep t = [t] := by
  induction t with
  | nil => rfl
  | cons c r ih =>
    simp only [List.mem_cons, not_or] at h
    simp [splitOn, Ne.symm h.1, ih h.2]

/-- What is left of a text after a given beginning. -/
def after? (start t : Text) : Option Text := start.isPrefixOf? t

def startsWith (t start : Text) : Bool := start.isPrefixOf t

/-- Code point order, a shorter text before its extensions. -/
def le : Text → Text → Bool
  | [], _ => true
  | _ :: _, [] => false
  | a :: r, b :: s => if a = b then le r s else a.val < b.val

def sorted (ts : List Text) : List Text := ts.mergeSort le

/-- Both `\r\n` and a lone `\r` end a line as `\n` does. -/
def unifyNewlines : Text → Text
  | [] => []
  | [c] => if c = '\r' then ['\n'] else [c]
  | c :: d :: r =>
    if c = '\r' then
      if d = '\n' then '\n' :: unifyNewlines r else '\n' :: unifyNewlines (d :: r)
    else c :: unifyNewlines (d :: r)

/-- The lines of a text without their ends; a last line may lack one. -/
def lines (t : Text) : List Text :=
  match (splitOn '\n' t).reverse with
  | [] :: r => r.reverse
  | ps => ps.reverse

end Text

end TreePlan
