import Mathlib
import TreePlan.Proofs.Layout.Rows

/-! A layout written below another. If their first lines are equally wide, its entries come beside those of the
other, and if it is wider than a directory at the end of the other, they come below that. Otherwise they are what
they were. -/

namespace TreePlan

/-- The same entry, further in and further down. -/
def Entry.shifted (k : Int) (n : Nat) (e : Entry) : Entry := e.placed (e.level + k) (e.line + n)

def Indents.onto (i : Indents) (base : List Int) : Indents := ⟨i.widths ++ base⟩

namespace Layout

/-- The context with more widths open below all of its own. -/
def Context.onto (ctx : Context) (base : List Int) : Context :=
  ⟨ctx.indents.onto base, ctx.belowDirectory⟩

variable {strict : Bool} {ctx ctx' ctx₁ : Context} {line : Nat} {source : Text} {e : Entry}
  {es fs : List Entry} {ps : List (Text × Nat)} {q : Text × Nat} {w : Int} {i : Indents} {base : List Int}

/-- The first line of a layout opens its width, whatever it is. -/
theorem Turn.of_nil (h : Turn ctx w (.ok i)) (hnil : ctx.indents.widths = []) : i = ⟨[w]⟩ := by
  cases h with
  | first => rfl
  | deeper hw => cases hnil.symm.trans hw
  | level hw => cases hnil.symm.trans hw
  | back hw => cases hnil.symm.trans hw

section Onto

/-- A line does not reach what was open before the first. -/
theorem Turn.onto (h : Turn ctx w (.ok i)) (hne : ctx.indents.widths ≠ []) (base : List Int) :
    Turn (ctx.onto base) w (.ok (i.onto base)) := by
  have hwidths : (ctx.onto base).indents.widths = ctx.indents.widths ++ base := rfl
  cases h with
  | first hw => exact absurd hw hne
  | deeper hw hlt hd =>
    rw [hw] at hwidths
    exact .deeper hwidths hlt hd
  | level hw =>
    rw [hw] at hwidths
    exact .level hwidths
  | back hw hlt hclosed =>
    rw [hw, List.cons_append, List.append_assoc] at hwidths
    exact .back hwidths hlt hclosed

theorem level_onto (h : i.widths ≠ []) (base : List Int) :
    ((i.onto base).level : Int) = i.level + base.length := by
  have hpos : 0 < i.widths.length := List.length_pos_iff.2 h
  simp only [Indents.level, Indents.onto, List.length_append]
  omega

theorem readLine_onto (h : readLine strict line ctx source = .ok (e, ctx'))
    (ht : Turn ctx₁ (width source) (.ok (ctx'.indents.onto base))) (n : Nat) :
    readLine strict (line + n) ctx₁ source = .ok (e.shifted base.length n, ctx'.onto base) := by
  obtain ⟨i, t, hopen, htokens, rfl, rfl⟩ := readLine_eq_ok_iff.1 h
  obtain ⟨htab, hturn⟩ := turn_of_open hopen
  obtain ⟨rest, hrest⟩ := hturn.head
  have hlevel := level_onto (i := i) (by simp [hrest]) base
  refine readLine_eq_ok_iff.2 ⟨_, t, ht.open_eq htab, htokens, ?_, rfl⟩
  rw [hlevel]
  rfl

/-- Lines after the first are read above other widths as they were without. -/
theorem readRows_onto (h : readRows strict ctx ps = .ok (es, ctx')) (hne : ctx.indents.widths ≠ [])
    (base : List Int) (n : Nat) :
    readRows strict (ctx.onto base) (ps.map (Prod.map id (· + n))) =
      .ok (es.map (Entry.shifted base.length n), ctx'.onto base) := by
  induction ps generalizing ctx es with
  | nil =>
    cases h
    rfl
  | cons p ps ih =>
    obtain ⟨source, line⟩ := p
    obtain ⟨e, ctx₁, rest, hline, hrest, rfl⟩ := readRows_cons_eq_ok_iff.1 h
    have hturn : Turn ctx (width source) (.ok ctx₁.indents) := turn_of_readLine hline
    obtain ⟨kept, hkept⟩ := hturn.head
    have hnext := readLine_onto hline (hturn.onto hne base) n
    exact readRows_cons_eq_ok_iff.2 ⟨_, _, _, hnext, ih hrest (by simp [hkept]), rfl⟩

/-- Lines are read above other widths as they were alone, if the first of them opens its width there. -/
theorem readRows_above (h : readRows strict {} (q :: ps) = .ok (es, ctx'))
    (ht : Turn ctx₁ (width q.1) (.ok ⟨(width q.1 : Int) :: base⟩)) (n : Nat) :
    readRows strict ctx₁ ((q :: ps).map (Prod.map id (· + n))) =
      .ok (es.map (Entry.shifted base.length n), ctx'.onto base) := by
  obtain ⟨source, line⟩ := q
  obtain ⟨e, ctx, rest, hline, hrest, rfl⟩ := readRows_cons_eq_ok_iff.1 h
  have hfirst : ctx.indents = ⟨[(width source : Int)]⟩ := (turn_of_readLine hline).of_nil rfl
  have hnext : readLine strict (line + n) ctx₁ source = .ok (e.shifted base.length n, ctx.onto base) :=
    readLine_onto hline (hfirst ▸ ht) n
  have hlater := readRows_onto hrest (by simp [hfirst]) base n
  exact readRows_cons_eq_ok_iff.2 ⟨_, _, _, hnext, hlater, rfl⟩

end Onto

section Grounded

/-- The first width is still open, and all others are wider. -/
structure Grounded (w : Int) (i : Indents) : Prop where
  sorted : i.widths.Pairwise (· > ·)
  bottom : i.widths.getLast? = some w

theorem Grounded.next {v : Int} (h : Grounded w ctx.indents) (ht : Turn ctx v (.ok i)) : Grounded w i := by
  refine ⟨ht.sorted h.sorted, ?_⟩
  have hbottom := h.bottom
  cases ht with
  | first hw =>
    rw [hw] at hbottom
    cases hbottom
  | deeper hw =>
    rw [hw] at hbottom
    exact hbottom
  | level hw =>
    rw [hw] at hbottom
    exact hbottom
  | back hw =>
    rw [hw, ← List.cons_append, List.getLast?_append_of_ne_nil _ (by simp)] at hbottom
    exact hbottom

theorem Grounded.run (h : Grounded w ctx.indents) (hread : readRows strict ctx ps = .ok (es, ctx')) :
    Grounded w ctx'.indents := by
  induction ps generalizing ctx es with
  | nil =>
    cases hread
    exact h
  | cons p ps ih =>
    obtain ⟨e, ctx₁, rest, hline, hrest, -⟩ := readRows_cons_eq_ok_iff.1 hread
    exact ih (h.next (turn_of_readLine hline)) hrest

theorem grounded_of_readRows {p : Text × Nat} (h : readRows strict {} (p :: ps) = .ok (es, ctx)) :
    Grounded (width p.1) ctx.indents := by
  obtain ⟨e, ctx₁, rest, hline, hrest, -⟩ := readRows_cons_eq_ok_iff.1 h
  have hfirst : ctx₁.indents = ⟨[(width p.1 : Int)]⟩ := (turn_of_readLine hline).of_nil rfl
  have hground : Grounded (width p.1) ctx₁.indents := hfirst ▸ ⟨List.pairwise_singleton _ _, rfl⟩
  exact hground.run hrest

/-- A line as wide as the first closes all but that. -/
theorem Grounded.turn (h : Grounded w ctx.indents) : Turn ctx w (.ok ⟨[w]⟩) := by
  obtain ⟨closed, hw⟩ := List.getLast?_eq_some_iff.1 h.bottom
  have hsorted := h.sorted
  rw [hw] at hsorted
  have hwider : ∀ x ∈ closed, w < x := fun x hx => (List.pairwise_append.1 hsorted).2.2 x hx w (by simp)
  cases closed with
  | nil => exact .level hw
  | cons top closed =>
    refine .back hw (hwider top (by simp)) fun hm => ?_
    exact absurd (hwider w (by simp [hm])) (Int.lt_irrefl w)

end Grounded

/-- What is left by the last line: its width is the deepest, and its entry tells how many are open. -/
theorem last_of_readRows {p : Text × Nat} (h : readRows strict ctx (ps ++ [p]) = .ok (es, ctx')) :
    ∃ d rest, es.getLast? = some d ∧ ctx'.indents.widths = (width p.1 : Int) :: rest ∧
      ctx'.belowDirectory = d.isDirectory ∧ (ctx'.indents.widths.length : Int) = d.level + 1 := by
  obtain ⟨before, ctx₁, d, -, hline, rfl⟩ := readRows_concat_eq_ok_iff.1 h
  obtain ⟨i, t, hopen, -, rfl, rfl⟩ := readLine_eq_ok_iff.1 hline
  obtain ⟨rest, hrest⟩ := (turn_of_open hopen).2.head
  refine ⟨_, rest, List.getLast?_concat, hrest, rfl, ?_⟩
  show (i.widths.length : Int) = (i.widths.length - 1 : Nat) + 1
  rw [hrest, List.length_cons]
  omega

variable {s t : Text}

/-- A layout below another, whose first line opens its width there. -/
theorem parse_above (hs : readRows strict {} (textRows s) = .ok (es, ctx₁)) (ht : parse strict t = .ok fs)
    (hq : (textRows t).head? = some q) (hturn : Turn ctx₁ (width q.1) (.ok ⟨(width q.1 : Int) :: base⟩)) :
    parse strict (s ++ CodePoint.ofChar '\n' :: t) =
      .ok (es ++ fs.map (Entry.shifted base.length (Text.splitOn '\n' s).length)) := by
  obtain ⟨ps, hps⟩ := List.head?_eq_some_iff.1 hq
  rw [parse_eq, hps] at ht
  obtain ⟨⟨fs, ctx'⟩, hread, rfl⟩ := map_eq_ok_iff.1 ht
  have habove := readRows_above hread hturn (Text.splitOn '\n' s).length
  rw [parse_eq, textRows_append, readRows_append, hs, hps]
  show ((readRows strict ctx₁ _).map _).map _ = _
  rw [habove]
  rfl

/-- Layouts whose first lines are equally wide are read side by side. A layout that is wider than the last
directory of another is read below it, all of it deeper by one level more than that directory has. -/
theorem parse_join (strict : Bool) (s t : Text) (es fs : List Entry) (hs : parse strict s = .ok es)
    (ht : parse strict t = .ok fs) (q : Text × Nat) (hq : (textRows t).head? = some q) :
    (∀ p ∈ (textRows s).head?, width p.1 = width q.1 →
      parse strict (s ++ CodePoint.ofChar '\n' :: t) =
        .ok (es ++ fs.map (Entry.shifted 0 (Text.splitOn '\n' s).length))) ∧
    ∀ p ∈ (textRows s).getLast?, ∀ d ∈ es.getLast?, d.isDirectory = true → width p.1 < width q.1 →
      parse strict (s ++ CodePoint.ofChar '\n' :: t) =
        .ok (es ++ fs.map (Entry.shifted (d.level + 1) (Text.splitOn '\n' s).length)) := by
  rw [parse_eq] at hs
  obtain ⟨⟨es, ctx⟩, hread, rfl⟩ := map_eq_ok_iff.1 hs
  constructor
  · intro p hp hw
    obtain ⟨ps, hps⟩ := List.head?_eq_some_iff.1 hp
    rw [hps] at hread
    have hground : Grounded (width q.1) ctx.indents := hw ▸ grounded_of_readRows hread
    exact parse_above (hps ▸ hread) ht hq hground.turn
  · intro p hp d hd hdir hlt
    obtain ⟨ps, hps⟩ := List.getLast?_eq_some_iff.1 hp
    obtain ⟨d', rest, hd', hrest, hbelow, hlength⟩ := last_of_readRows (hps ▸ hread)
    obtain rfl : d' = d := Option.some.inj (hd'.symm.trans hd)
    have hturn : Turn ctx (width q.1) (.ok ⟨(width q.1 : Int) :: ctx.indents.widths⟩) := by
      rw [hrest]
      exact .deeper hrest (Int.ofNat_lt.2 hlt) (hbelow.trans hdir)
    rw [← hlength]
    exact parse_above hread ht hq hturn

/-- A layout with a directory at its end, one as wide as its first line and one wider than its last. -/
def upperText : Text := " a/\n   b/\n"

def besideText : Text := " c/\n     d\n e"

def belowText : Text := "    x/\n      y\n    z"

def upperEntries : List Entry :=
  [{ name := "a", level := 0, line := 1, isDirectory := true },
    { name := "b", level := 1, line := 2, isDirectory := true }]

/-- A directory with a file in it, and a file beside it. -/
def twoLevels (x y z : Text) : List Entry :=
  [{ name := x, level := 0, line := 1, isDirectory := true }, { name := y, level := 1, line := 2 },
    { name := z, level := 0, line := 3 }]

theorem parse_join_upper :
    (parse false upperText = .ok upperEntries ∧ parse false besideText = .ok (twoLevels "c" "d" "e") ∧
        parse false belowText = .ok (twoLevels "x" "y" "z")) ∧
      parse false (upperText ++ CodePoint.ofChar '\n' :: besideText) =
        .ok (upperEntries ++ (twoLevels "c" "d" "e").map (Entry.shifted 0 3)) ∧
      parse false (upperText ++ CodePoint.ofChar '\n' :: belowText) =
        .ok (upperEntries ++ (twoLevels "x" "y" "z").map (Entry.shifted 2 3)) := by
  have hupper : parse false upperText = .ok upperEntries := by cbv
  have hbeside : parse false besideText = .ok (twoLevels "c" "d" "e") := by cbv
  have hbelow : parse false belowText = .ok (twoLevels "x" "y" "z") := by cbv
  have hrows : textRows upperText = [(Text.ofString " a/", 1), (Text.ofString "   b/", 2)] := by cbv
  have hfirst : (textRows besideText).head? = some (Text.ofString " c/", 1) := by cbv
  have hdeep : (textRows belowText).head? = some (Text.ofString "    x/", 1) := by cbv
  have htop : (textRows upperText).head? = some (Text.ofString " a/", 1) := by rw [hrows]; rfl
  have hlast : (textRows upperText).getLast? = some (Text.ofString "   b/", 2) := by rw [hrows]; rfl
  refine ⟨⟨hupper, hbeside, hbelow⟩, ?_, ?_⟩
  · exact (parse_join false _ _ _ _ hupper hbeside _ hfirst).1 _ htop rfl
  · exact (parse_join false _ _ _ _ hupper hbelow _ hdeep).2 _ hlast _ rfl rfl (by decide)

end Layout

end TreePlan
