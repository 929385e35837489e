import TreePlan.Layout.Token
import TreePlan.Proofs.Except
import TreePlan.Proofs.Text.Scanning

/-! What the text between two quotes spells. One reader looks for the next quote that no backslash escapes and
another takes the characters apart; both come to the same end, since what is between is spelled in one way
only. -/

namespace TreePlan

theorem Token.throughQuote?_append {s t r : Text} (h : throughQuote? s = some (t, r)) : s = t ++ r := by
  fun_induction throughQuote? s generalizing t r with
  | case1 => cases h
  | case2 r' => cases h; rfl
  | case3 => cases h
  | case4 e r' _ ih =>
    obtain ⟨⟨t', r₁⟩, hp, he⟩ := Option.map_eq_some_iff.1 h
    cases he
    rw [ih hp]
    rfl
  | case5 c r' _ _ ih =>
    obtain ⟨⟨t', r₁⟩, hp, he⟩ := Option.map_eq_some_iff.1 h
    cases he
    rw [ih hp]
    rfl

namespace Json

/-- The letters of the short escapes, with what they stand for. -/
def shortForms : List (CodePoint × CodePoint) :=
  [('"', '"'), ('\\', '\\'), ('/', '/'), ('b', CodePoint.ofNat 8), ('f', CodePoint.ofNat 12), ('n', '\n'),
    ('r', '\r'), ('t', '\t')]

/-- Four digits in base sixteen, and the code point whose number they write. -/
structure IsUnit (ds : Text) (u : CodePoint) : Prop where
  length : ds.length = 4
  hex : ∀ c ∈ ds, c.hexDigit?.isSome
  value : Text.valueOf 16 ds = u.val

instance (ds : Text) (u : CodePoint) : Decidable (IsUnit ds u) :=
  decidable_of_iff (ds.length = 4 ∧ (ds.all fun c => c.hexDigit?.isSome) = true ∧ Text.valueOf 16 ds = u.val)
    ⟨fun ⟨hlen, hhex, hval⟩ => ⟨hlen, List.all_eq_true.1 hhex, hval⟩,
      fun ⟨hlen, hhex, hval⟩ => ⟨hlen, List.all_eq_true.2 hhex, hval⟩⟩

/-- An escape by number. -/
def unitEscape (ds : Text) : Text := CodePoint.ofChar '\\' :: CodePoint.ofChar 'u' :: ds

/-- A text goes on with an escaped low surrogate. -/
def StartsLow (w : Text) : Prop :=
  ∃ ds low r, IsUnit ds low ∧ low.isLowSurrogate = true ∧ w = unitEscape ds ++ r

/-- What characters between quotes spell. An escaped high surrogate makes one character with an escaped low one
directly after it, and stands for itself only where there is none. -/
inductive Spelled : Text → Text → Prop where
  | nil : Spelled [] []
  | itself {c : CodePoint} {w t : Text} :
      0x20 ≤ c.val → c ≠ '"' → c ≠ '\\' → Spelled w t → Spelled (c :: w) (c :: t)
  | short {e c : CodePoint} {w t : Text} :
      (e, c) ∈ shortForms → Spelled w t → Spelled (CodePoint.ofChar '\\' :: e :: w) (c :: t)
  | unit {ds w t : Text} {u : CodePoint} :
      IsUnit ds u → ¬(u.isHighSurrogate = true ∧ StartsLow w) → Spelled w t →
      Spelled (unitEscape ds ++ w) (u :: t)
  | pair {ds es w t : Text} {high low : CodePoint} :
      IsUnit ds high → IsUnit es low → high.isHighSurrogate = true → low.isLowSurrogate = true →
      Spelled w t →
      Spelled (unitEscape ds ++ (unitEscape es ++ w)) (CodePoint.ofSurrogates high low :: t)

/-- A literal, with its quotes. -/
def Literal (q v : Text) : Prop :=
  ∃ w, q = CodePoint.ofChar '"' :: (w ++ [CodePoint.ofChar '"']) ∧ Spelled w v

section Unit

variable {c : CodePoint} {n : Nat} {ds es r s : Text} {u v : CodePoint}

theorem hexDigit?_lt (h : c.hexDigit? = some n) : n < 16 := by
  unfold CodePoint.hexDigit? at h
  grind

theorem val_ofNat {n : Nat} (h : n < 0x110000) : (CodePoint.ofNat n).val = n := Nat.mod_eq_of_lt h

/-- The digits of an escape are no quotes and begin no escape. -/
theorem hexDigit?_plain (h : c.hexDigit?.isSome) : c ≠ '"' ∧ c ≠ '\\' := by
  refine ⟨?_, ?_⟩
  · rintro rfl
    cases h
  · rintro rfl
    cases h

theorem unit?_eq_some_iff {a b d e : CodePoint} : unit? a b d e = some u ↔ IsUnit [a, b, d, e] u := by
  refine ⟨fun h => ?_, fun h => ?_⟩
  · simp only [unit?, Option.pure_def, Option.bind_eq_bind, Option.bind_eq_some_iff] at h
    obtain ⟨k₁, h₁, k₂, h₂, k₃, h₃, k₄, h₄, hu⟩ := h
    have hlt₁ := hexDigit?_lt h₁
    have hlt₂ := hexDigit?_lt h₂
    have hlt₃ := hexDigit?_lt h₃
    have hlt₄ := hexDigit?_lt h₄
    refine ⟨rfl, by simp [h₁, h₂, h₃, h₄], ?_⟩
    rw [← Option.some.inj hu, val_ofNat (by omega)]
    simp [Text.valueOf, h₁, h₂, h₃, h₄]
  · have hex := h.hex
    simp only [List.forall_mem_cons, Option.isSome_iff_exists] at hex
    obtain ⟨⟨k₁, h₁⟩, ⟨k₂, h₂⟩, ⟨k₃, h₃⟩, ⟨k₄, h₄⟩, -⟩ := hex
    have hval := h.value
    simp only [Text.valueOf, List.foldl_cons, List.foldl_nil, h₁, h₂, h₃, h₄, Option.getD_some,
      Nat.zero_mul, Nat.zero_add] at hval
    simp only [unit?, h₁, h₂, h₃, h₄, Option.bind_eq_bind, Option.bind_some, hval, CodePoint.ofNat_val]
    rfl

theorem IsUnit.eq_cons (h : IsUnit ds u) : ∃ a b d e, ds = [a, b, d, e] := by
  match ds, h.length with
  | [a, b, d, e], _ => exact ⟨a, b, d, e, rfl⟩

/-- The digits say which code point it is, and how long the escape is. -/
theorem IsUnit.unique (h : IsUnit ds u) (h' : IsUnit es v) (he : ds ++ r = es ++ s) : u = v ∧ r = s := by
  obtain ⟨rfl, rfl⟩ := List.append_inj he (h.length.trans h'.length.symm)
  exact ⟨Fin.ext (h.value.symm.trans h'.value), rfl⟩

end Unit

section Closing

open Token (throughQuote? literal?)

variable {c : CodePoint} {ds w t : Text} {u : CodePoint}

theorem throughQuote?_cons (hq : c ≠ '"') (hb : c ≠ '\\') (r : Text) :
    throughQuote? (c :: r) = (throughQuote? r).map fun p => (c :: p.1, p.2) := by
  conv_lhs => unfold throughQuote?
  rw [if_neg hq, if_neg hb]

theorem throughQuote?_unitEscape (h : IsUnit ds u) (r : Text) :
    throughQuote? (unitEscape ds ++ r) = (throughQuote? r).map fun p => (unitEscape ds ++ p.1, p.2) := by
  have hdigits : ∀ ds : Text, (∀ c ∈ ds, c.hexDigit?.isSome) →
      throughQuote? (ds ++ r) = (throughQuote? r).map fun p => (ds ++ p.1, p.2) := by
    intro ds hex
    induction ds with
    | nil => simp
    | cons c ds ih =>
      obtain ⟨hc, hex⟩ := List.forall_mem_cons.1 hex
      obtain ⟨hq, hb⟩ := hexDigit?_plain hc
      rw [List.cons_append, throughQuote?_cons hq hb, ih hex, Option.map_map]
      rfl
  show (throughQuote? (ds ++ r)).map _ = _
  rw [hdigits ds h.hex, Option.map_map]
  rfl

/-- What spells a text does not close its quotes. -/
theorem Spelled.throughQuote?_append (h : Spelled w t) (r : Text) :
    throughQuote? (w ++ r) = (throughQuote? r).map fun p => (w ++ p.1, p.2) := by
  induction h with
  | nil => simp
  | itself _ hq hb _ ih =>
    rw [List.cons_append, throughQuote?_cons hq hb, ih, Option.map_map]
    rfl
  | @short e c w _ _ _ ih =>
    show (throughQuote? (w ++ r)).map _ = _
    rw [ih, Option.map_map]
    rfl
  | unit hu _ _ ih =>
    rw [List.append_assoc, throughQuote?_unitEscape hu, ih, Option.map_map]
    simp only [Function.comp_def, List.append_assoc]
  | pair hhigh hlow _ _ _ ih =>
    rw [List.append_assoc, List.append_assoc, throughQuote?_unitEscape hhigh, throughQuote?_unitEscape hlow,
      ih, Option.map_map, Option.map_map]
    simp only [Function.comp_def, List.append_assoc]

theorem Spelled.throughQuote?_closed (h : Spelled w t) (r : Text) :
    throughQuote? (w ++ CodePoint.ofChar '"' :: r) = some (w ++ [CodePoint.ofChar '"'], r) := by
  have hquote : throughQuote? (CodePoint.ofChar '"' :: r) = some ([CodePoint.ofChar '"'], r) := by
    unfold throughQuote?
    exact if_pos rfl
  rw [h.throughQuote?_append, hquote]
  rfl

/-- A literal ends where it was written to end, whatever follows. -/
theorem Literal.literal?_append {q v : Text} (h : Literal q v) (r : Text) : literal? (q ++ r) = some (q, r) := by
  obtain ⟨w, rfl, hw⟩ := h
  have hclose := hw.throughQuote?_closed r
  rw [List.cons_append, List.append_assoc, List.singleton_append, literal?, hclose]
  rfl

end Closing

/-- The pieces that characters between quotes are read as. -/
inductive Pieces : Text → List Piece → Prop where
  | nil : Pieces [] []
  | itself {c : CodePoint} {w : Text} {ps : List Piece} :
      0x20 ≤ c.val → c ≠ '"' → c ≠ '\\' → Pieces w ps → Pieces (c :: w) (.plain c :: ps)
  | short {e c : CodePoint} {w : Text} {ps : List Piece} :
      (e, c) ∈ shortForms → Pieces w ps → Pieces (CodePoint.ofChar '\\' :: e :: w) (.plain c :: ps)
  | unit {ds w : Text} {u : CodePoint} {ps : List Piece} :
      IsUnit ds u → Pieces w ps → Pieces (unitEscape ds ++ w) (.numbered u :: ps)

section Reading

variable {c e u : CodePoint} {w r s t v ds : Text} {ps : List Piece}

theorem shortEscape?_eq_some_iff : shortEscape? e = some c ↔ (e, c) ∈ shortForms := by
  refine ⟨fun h => ?_, fun h => ?_⟩
  · unfold shortEscape? at h
    split at h
    · next he =>
      cases h
      rcases he with rfl | rfl | rfl <;> decide
    split at h
    · next he =>
      cases h
      subst he
      decide
    split at h
    · next he =>
      cases h
      subst he
      decide
    split at h
    · next he =>
      cases h
      subst he
      decide
    split at h
    · next he =>
      cases h
      subst he
      decide
    split at h
    · next he =>
      cases h
      subst he
      decide
    · cases h
  · simp only [shortForms, List.mem_cons, Prod.mk.injEq, List.not_mem_nil, or_false] at h
    rcases h with ⟨rfl, rfl⟩ | ⟨rfl, rfl⟩ | ⟨rfl, rfl⟩ | ⟨rfl, rfl⟩ | ⟨rfl, rfl⟩ | ⟨rfl, rfl⟩ | ⟨rfl, rfl⟩ |
      ⟨rfl, rfl⟩ <;> rfl

theorem ne_unit_of_short (h : (e, c) ∈ shortForms) : e ≠ 'u' := by
  rintro rfl
  rw [← shortEscape?_eq_some_iff] at h
  cases h

theorem pieces_of_readPieces (h : readPieces s = .ok (ps, r)) :
    ∃ w, Pieces w ps ∧ s = w ++ CodePoint.ofChar '"' :: r := by
  fun_induction readPieces s generalizing ps r with
  | case2 =>
    cases h
    exact ⟨[], .nil, rfl⟩
  | case7 a b d e r' _ u hu _ _ ih =>
    obtain ⟨⟨qs, r⟩, hr, he⟩ := map_eq_ok_iff.1 h
    cases he
    obtain ⟨w, hw, rfl⟩ := ih hr
    exact ⟨_, .unit (unit?_eq_some_iff.1 hu) hw, rfl⟩
  | case10 e r' _ k hk _ _ ih =>
    obtain ⟨⟨qs, r⟩, hr, he⟩ := map_eq_ok_iff.1 h
    cases he
    obtain ⟨w, hw, rfl⟩ := ih hr
    exact ⟨_, .short (shortEscape?_eq_some_iff.1 hk) hw, rfl⟩
  | case11 c r' hq hlo hb ih =>
    obtain ⟨⟨qs, r⟩, hr, he⟩ := map_eq_ok_iff.1 h
    cases he
    obtain ⟨w, hw, rfl⟩ := ih hr
    exact ⟨_, .itself (Nat.not_lt.1 hlo) hq hb hw, rfl⟩
  | _ => cases h

/-- The closing quote comes after an escape by number, which may not be the end of a text. -/
theorem readPieces_unitEscape (h : IsUnit ds u) (hr : readPieces s = .ok (ps, r)) :
    readPieces (unitEscape ds ++ s) = .ok (.numbered u :: ps, r) := by
  obtain ⟨a, b, d, e, rfl⟩ := h.eq_cons
  have hne : s.isEmpty = false := by
    cases s with
    | nil => cases hr
    | cons => rfl
  have hunit := unit?_eq_some_iff.2 h
  simp only [unitEscape, List.cons_append, List.nil_append]
  unfold readPieces
  simp only [hunit, hne, hr]
  rfl

theorem Pieces.readPieces_append (h : Pieces w ps) (r : Text) :
    readPieces (w ++ CodePoint.ofChar '"' :: r) = .ok (ps, r) := by
  induction h with
  | nil =>
    rw [List.nil_append]
    unfold readPieces
    exact if_pos rfl
  | itself hlo hq hb _ ih =>
    rw [List.cons_append]
    unfold readPieces
    rw [if_neg hq, if_neg (Nat.not_lt.2 hlo), if_neg hb, ih]
    rfl
  | short he _ ih =>
    rw [List.cons_append, List.cons_append]
    unfold readPieces
    simp only [shortEscape?_eq_some_iff.2 he, ih, if_neg (ne_unit_of_short he)]
    rfl
  | unit hu _ ih =>
    rw [List.append_assoc]
    exact readPieces_unitEscape hu ih

theorem readPieces_eq_ok_iff :
    readPieces s = .ok (ps, r) ↔ ∃ w, Pieces w ps ∧ s = w ++ CodePoint.ofChar '"' :: r := by
  refine ⟨pieces_of_readPieces, ?_⟩
  rintro ⟨w, hw, rfl⟩
  exact hw.readPieces_append r

end Reading

section Joining

variable {c u low : CodePoint} {w r t q v ds : Text} {ps : List Piece}

/-- An escape by number is read as a piece by itself. -/
theorem Pieces.head_of_unit (h : Pieces w ps) (hu : IsUnit ds u) (hw : w = unitEscape ds ++ r) :
    ps.head? = some (.numbered u) := by
  cases h with
  | nil => cases hw
  | itself _ _ hb => exact absurd (List.cons.inj hw).1 hb
  | short he => exact absurd (List.cons.inj (List.cons.inj hw).2).1 (ne_unit_of_short he)
  | unit hv =>
    have heq := (List.cons.inj (List.cons.inj hw).2).2
    rw [(hv.unique hu heq).1]
    rfl

theorem Pieces.startsLow_iff (h : Pieces w ps) :
    StartsLow w ↔ ∃ low : CodePoint, low.isLowSurrogate = true ∧ ps.head? = some (.numbered low) := by
  refine ⟨?_, ?_⟩
  · rintro ⟨ds, low, r, hu, hlow, hw⟩
    exact ⟨low, hlow, h.head_of_unit hu hw⟩
  · rintro ⟨low, hlow, hhead⟩
    cases h with
    | nil => cases hhead
    | itself => cases hhead
    | short => cases hhead
    | unit hu =>
      cases hhead
      exact ⟨_, _, _, hu, hlow, rfl⟩

theorem join_numbered (h : ¬(c.isHighSurrogate = true ∧
      ∃ low : CodePoint, low.isLowSurrogate = true ∧ ps.head? = some (.numbered low))) :
    Piece.join (.numbered c :: ps) = c :: Piece.join ps := by
  cases ps with
  | nil => rfl
  | cons p ps =>
    cases p with
    | plain d => rfl
    | numbered d =>
      refine if_neg fun hcd => h ?_
      rw [Bool.and_eq_true] at hcd
      exact ⟨hcd.1, d, hcd.2, rfl⟩

/-- What is spelled is what the pieces make when escaped pairs are joined. -/
theorem Pieces.spelled (h : Pieces w ps) : Spelled w (Piece.join ps) := by
  fun_induction Piece.join ps generalizing w with
  | case1 =>
    cases h
    exact .nil
  | case2 c ps ih =>
    cases h with
    | itself hlo hq hb h => exact .itself hlo hq hb (ih h)
    | short he h => exact .short he (ih h)
  | case3 c d ps hcd ih =>
    rw [Bool.and_eq_true] at hcd
    cases h with
    | unit hc h =>
      cases h with
      | unit hd h => exact .pair hc hd hcd.1 hcd.2 (ih h)
  | case4 c d ps hcd ih =>
    cases h with
    | unit hc h =>
      refine .unit hc (fun hlone => hcd ?_) (ih h)
      obtain ⟨low, hlow, hhead⟩ := h.startsLow_iff.1 hlone.2
      cases hhead
      rw [hlone.1, hlow]
      rfl
  | case5 c ps hps ih =>
    cases h with
    | unit hc h =>
      refine .unit hc (fun hlone => ?_) (ih h)
      obtain ⟨low, -, hhead⟩ := h.startsLow_iff.1 hlone.2
      obtain ⟨ps', rfl⟩ := List.head?_eq_some_iff.1 hhead
      exact hps low ps' rfl

theorem Spelled.pieces (h : Spelled w t) : ∃ ps, Pieces w ps ∧ Piece.join ps = t := by
  induction h with
  | nil => exact ⟨[], .nil, rfl⟩
  | itself hlo hq hb _ ih =>
    obtain ⟨ps, hps, rfl⟩ := ih
    exact ⟨_, .itself hlo hq hb hps, rfl⟩
  | short he _ ih =>
    obtain ⟨ps, hps, rfl⟩ := ih
    exact ⟨_, .short he hps, rfl⟩
  | unit hu hlone _ ih =>
    obtain ⟨ps, hps, rfl⟩ := ih
    rw [hps.startsLow_iff] at hlone
    exact ⟨_, .unit hu hps, join_numbered hlone⟩
  | pair hhigh hlow hh hl _ ih =>
    obtain ⟨ps, hps, rfl⟩ := ih
    refine ⟨_, .unit hhigh (.unit hlow hps), ?_⟩
    simp [Piece.join, hh, hl]

/-- A string is read just as far as the quote that closes it, as what is spelled up to there. -/
theorem readString_eq_ok_iff {s : Text} :
    readString s = .ok (t, r) ↔ ∃ w, Spelled w t ∧ s = w ++ CodePoint.ofChar '"' :: r := by
  unfold readString
  rw [map_eq_ok_iff]
  refine ⟨?_, ?_⟩
  · rintro ⟨⟨ps, r⟩, hread, he⟩
    cases he
    obtain ⟨w, hw, rfl⟩ := readPieces_eq_ok_iff.1 hread
    exact ⟨w, hw.spelled, rfl⟩
  · rintro ⟨w, hw, rfl⟩
    obtain ⟨ps, hps, rfl⟩ := hw.pieces
    exact ⟨(ps, r), hps.readPieces_append r, rfl⟩

/-- After an opening quote there is nothing to read but a string. -/
theorem read_quote_eq_ok_iff {s : Text} {x : Value} : read (CodePoint.ofChar '"' :: s) = .ok x ↔
    ∃ t r, readString s = .ok (t, r) ∧ skipBlanks r = [] ∧ x = .text t := by
  have hmark : (CodePoint.ofChar '"' :: s).head? ≠ some (CodePoint.ofNat 0xFEFF) := by
    rintro ⟨⟩
  have hskip : skipBlanks (CodePoint.ofChar '"' :: s) = CodePoint.ofChar '"' :: s := rfl
  rw [read, if_neg hmark, hskip, readValue, if_pos rfl, bind_eq_ok_iff]
  refine ⟨?_, ?_⟩
  · rintro ⟨⟨w, r⟩, hread, h⟩
    obtain ⟨⟨t, r⟩, hstring, he⟩ := map_eq_ok_iff.1 hread
    cases he
    dsimp only at h
    split at h
    · next hend =>
      cases h
      exact ⟨t, r, hstring, by simpa using hend, rfl⟩
    · cases h
  · rintro ⟨t, r, hstring, hend, rfl⟩
    refine ⟨(.text t, r), map_eq_ok_iff.2 ⟨(t, r), hstring, rfl⟩, ?_⟩
    dsimp only
    rw [hend]
    rfl

theorem Literal.read (h : Literal q v) : Json.read q = .ok (.text v) := by
  obtain ⟨w, rfl, hw⟩ := h
  have hstring : readString (w ++ [CodePoint.ofChar '"']) = .ok (v, []) :=
    readString_eq_ok_iff.2 ⟨w, hw, rfl⟩
  exact read_quote_eq_ok_iff.2 ⟨v, [], hstring, rfl, rfl⟩

/-- The characters before the next quote that no backslash escapes, if they are read as a text at all, spell
that text. -/
theorem literal_of_read {s l r : Text} (hclose : Token.throughQuote? s = some (l, r))
    (hread : Json.read (CodePoint.ofChar '"' :: l) = .ok (.text v)) :
    Literal (CodePoint.ofChar '"' :: l) v := by
  obtain ⟨t, r', hstring, -, he⟩ := read_quote_eq_ok_iff.1 hread
  cases he
  obtain ⟨w, hw, rfl⟩ := readString_eq_ok_iff.1 hstring
  have hs := Token.throughQuote?_append hclose
  rw [List.append_assoc, List.cons_append] at hs
  have hfirst := hw.throughQuote?_closed (r' ++ r)
  rw [← hs, hclose] at hfirst
  obtain ⟨hl, -⟩ := Prod.mk.inj (Option.some.inj hfirst)
  exact ⟨w, congrArg _ hl, hw⟩

end Joining

end Json

end TreePlan
