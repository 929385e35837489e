import TreePlan.Proofs.Json.Literal

/-! The words, numbers and strings of JSON are read in the same way whatever comes after them, as long as it
could not be more of them. Each of them takes something of the text. -/

namespace TreePlan

namespace Json

/-- What a word or a number does not go on with. -/
def Stops (x : Text) : Prop := ∀ c ∈ x.head?, c.isAsciiDigit = false ∧ c ∉ Text.ofString ".eE+-" ∧
  ∀ w ∈ words, c ∉ w.1

variable {s x r : Text} {v : Value} {f : Fault}

section Number

theorem Stops.digit (hx : Stops x) : ∀ c ∈ x.head?, c.isAsciiDigit = false := fun c hc => (hx c hc).1

theorem Stops.sign (hx : Stops x) {d : CodePoint} (hd : d ∈ Text.ofString ".eE+-") : x.head? ≠ some d :=
  fun h => (hx d h).2.1 hd

theorem head?_append_eq_iff (hx : Stops x) {d : CodePoint} (hd : d ∈ Text.ofString ".eE+-") (s : Text) :
    (s ++ x).head? = some d ↔ s.head? = some d := by
  cases s with
  | nil => simpa using hx.sign hd
  | cons c s => rfl

theorem wholePart?_append (hx : Stops x) (s : Text) :
    wholePart? (s ++ x) = (wholePart? s).map fun p => (p.1, p.2 ++ x) := by
  cases s with
  | nil =>
    cases x with
    | nil => rfl
    | cons c x =>
      have hc := hx.digit c rfl
      have hzero : ¬c = CodePoint.ofChar '0' := by
        rintro rfl
        cases hc
      simp [wholePart?, hzero, hc]
  | cons c s =>
    obtain ⟨htake, hdrop⟩ := Text.takeWhile_append hx.digit (c :: s)
    rw [List.cons_append] at htake hdrop
    rw [List.cons_append, wholePart?, wholePart?, htake, hdrop]
    split_ifs <;> rfl

theorem fractionPart_append (hx : Stops x) (s : Text) :
    fractionPart (s ++ x) = ((fractionPart s).1, (fractionPart s).2 ++ x) := by
  match s with
  | [] =>
    match x with
    | [] => rfl
    | [c] => rfl
    | c :: d :: x =>
      have hc : c ≠ CodePoint.ofChar '.' := fun h => hx.sign (d := c) (h ▸ by decide) rfl
      simp [fractionPart, hc]
  | [p] =>
    match x with
    | [] => rfl
    | d :: x =>
      have hd := hx.digit d rfl
      simp [fractionPart, hd]
  | p :: d :: s =>
    obtain ⟨htake, hdrop⟩ := Text.takeWhile_append hx.digit (d :: s)
    rw [List.cons_append] at htake hdrop
    rw [List.cons_append, List.cons_append, fractionPart, fractionPart, htake, hdrop]
    split_ifs <;> rfl

theorem exponentPart_append (hx : Stops x) (s : Text) :
    exponentPart (s ++ x) = ((exponentPart s).1, (exponentPart s).2 ++ x) := by
  match s with
  | [] =>
    match x with
    | [] => rfl
    | c :: x =>
      have hc : ¬(c = CodePoint.ofChar 'e' ∨ c = CodePoint.ofChar 'E') := by
        rintro (rfl | rfl)
        · exact hx.sign (by decide) rfl
        · exact hx.sign (by decide) rfl
      simp [exponentPart, hc]
  | e :: s =>
    have hneg := head?_append_eq_iff hx (d := CodePoint.ofChar '-') (by decide) s
    have hpos := head?_append_eq_iff hx (d := CodePoint.ofChar '+') (by decide) s
    rw [List.cons_append, exponentPart, exponentPart]
    simp only [hneg, hpos]
    by_cases hsign : (decide (s.head? = some (CodePoint.ofChar '-')) ||
        decide (s.head? = some (CodePoint.ofChar '+'))) = true
    · have hdrop : (s ++ x).drop 1 = s.drop 1 ++ x := by
        cases s with
        | nil => simp at hsign
        | cons c s => rfl
      obtain ⟨htake, hrest⟩ := Text.takeWhile_append hx.digit (s.drop 1)
      simp only [hsign, if_true, hdrop, htake, hrest]
      split_ifs <;> rfl
    · obtain ⟨htake, hrest⟩ := Text.takeWhile_append hx.digit s
      rw [Bool.not_eq_true] at hsign
      simp only [hsign, Bool.false_eq_true, if_false, htake, hrest]
      split_ifs <;> rfl

/-- A number ends where it ended, whatever comes after the text. -/
theorem readNumber_append (hx : Stops x) (s : Text) :
    readNumber (s ++ x) = (readNumber s).map fun p => (p.1, p.2 ++ x) := by
  have hneg := head?_append_eq_iff hx (d := CodePoint.ofChar '-') (by decide) s
  have hdrop : (if s.head? = some (CodePoint.ofChar '-') then (s ++ x).drop 1 else s ++ x) =
      (if s.head? = some (CodePoint.ofChar '-') then s.drop 1 else s) ++ x := by
    split
    · next h =>
      obtain ⟨s, rfl⟩ := List.head?_eq_some_iff.1 h
      rfl
    · rfl
  unfold readNumber
  simp only [hneg, hdrop, wholePart?_append hx]
  cases wholePart? (if s.head? = some (CodePoint.ofChar '-') then s.drop 1 else s) with
  | none => rfl
  | some p =>
    simp only [Option.map_some, fractionPart_append hx, exponentPart_append hx]
    split_ifs <;> rfl

theorem readWord?_append (hx : Stops x) (s : Text) :
    readWord? (s ++ x) = (readWord? s).map fun p => (p.1, p.2 ++ x) := by
  have hword : ∀ w ∈ words, Text.after? w.1 (s ++ x) = (Text.after? w.1 s).map (· ++ x) :=
    fun w hw => Text.after?_append (fun c hc => (hx c hc).2.2 w hw) s
  unfold readWord?
  generalize words = ws at hword
  induction ws with
  | nil => rfl
  | cons w ws ih =>
    obtain ⟨hw, hws⟩ := List.forall_mem_cons.1 hword
    rw [List.findSome?_cons, List.findSome?_cons, hw]
    cases Text.after? w.1 s with
    | none => exact ih hws
    | some r => rfl

end Number

section Rest

variable {t : Text}

theorem length_lt_of_wholePart? {d : Text} (h : wholePart? s = some (d, r)) : r.length < s.length := by
  unfold wholePart? at h
  split at h
  · cases h
  · next c s =>
    split at h
    · cases h
      exact Nat.lt_succ_self _
    split at h
    · next hc =>
      cases h
      rw [List.dropWhile_cons_of_pos hc]
      exact Nat.lt_succ_of_le (List.dropWhile_suffix _).length_le
    · cases h

theorem suffix_of_wholePart? {d : Text} (h : wholePart? s = some (d, r)) : r <:+ s := by
  unfold wholePart? at h
  split at h
  · cases h
  · split at h
    · cases h
      exact List.suffix_cons _ _
    split at h
    · cases h
      exact List.dropWhile_suffix _
    · cases h

theorem fractionPart_suffix (s : Text) : (fractionPart s).2 <:+ s := by
  unfold fractionPart
  split
  · split_ifs
    · exact (List.dropWhile_suffix _).trans (List.suffix_cons _ _)
    · exact List.suffix_rfl
  · exact List.suffix_rfl

theorem exponentPart_suffix (s : Text) : (exponentPart s).2 <:+ s := by
  match s with
  | [] => exact List.suffix_rfl
  | e :: s =>
    have hdrop (n : Nat) : (s.drop n).dropWhile (·.isAsciiDigit) <:+ e :: s :=
      (List.dropWhile_suffix _).trans ((List.drop_suffix n s).trans (List.suffix_cons _ _))
    unfold exponentPart
    dsimp only
    split_ifs
    all_goals first
      | exact List.suffix_rfl
      | exact hdrop 1
      | exact hdrop 0

theorem suffix_of_readNumber (h : readNumber s = .ok (v, r)) : r <:+ s := by
  unfold readNumber at h
  dsimp only at h
  split at h
  · cases h
  · next whole s' hwhole =>
    have hsign : (if s.head? = some (CodePoint.ofChar '-') then s.drop 1 else s) <:+ s := by
      split
      · exact List.drop_suffix 1 s
      · exact List.suffix_rfl
    have hrest := (exponentPart_suffix (fractionPart s').2).trans
      ((fractionPart_suffix s').trans ((suffix_of_wholePart? hwhole).trans hsign))
    split_ifs at h
    all_goals
      cases h
      exact hrest

theorem length_lt_of_readNumber (h : readNumber s = .ok (v, r)) : r.length < s.length := by
  unfold readNumber at h
  dsimp only at h
  split at h
  · cases h
  · next whole s' hwhole =>
    have hsign : (if s.head? = some (CodePoint.ofChar '-') then s.drop 1 else s).length ≤ s.length := by
      split
      · exact (List.drop_suffix 1 s).length_le
      · exact Nat.le_refl _
    have hlt := (length_lt_of_wholePart? hwhole).trans_le hsign
    have hfraction := (fractionPart_suffix s').length_le
    have hexponent := (exponentPart_suffix (fractionPart s').2).length_le
    split_ifs at h
    all_goals
      cases h
      omega

theorem length_lt_of_readWord? (h : readWord? s = some (v, r)) : r.length < s.length := by
  obtain ⟨w, hw, hv⟩ := List.exists_of_findSome?_eq_some h
  obtain ⟨r', hr, he⟩ := Option.map_eq_some_iff.1 hv
  cases he
  have hne : w.1 ≠ [] := (by decide : ∀ w ∈ words.map Prod.fst, w ≠ []) _ (List.mem_map_of_mem hw)
  rw [Text.after?_eq_some_iff.1 hr, List.length_append]
  have := List.length_pos_iff.2 hne
  omega

theorem length_lt_of_readString (h : readString s = .ok (t, r)) : r.length < s.length := by
  obtain ⟨w, -, rfl⟩ := readString_eq_ok_iff.1 h
  rw [List.length_append, List.length_cons]
  omega

/-- The quote that closes a string is not to be found in what has none. -/
theorem readString_append_eq_ok_iff (hx : CodePoint.ofChar '"' ∉ x) :
    readString (s ++ x) = .ok (t, r) ↔ ∃ r', readString s = .ok (t, r') ∧ r = r' ++ x := by
  simp only [readString_eq_ok_iff, Text.append_eq_append_cons_iff hx]
  constructor
  · rintro ⟨w, hw, r', rfl, rfl⟩
    exact ⟨r', ⟨w, hw, rfl⟩, rfl⟩
  · rintro ⟨r', ⟨w, hw, rfl⟩, rfl⟩
    exact ⟨w, hw, r', rfl, rfl⟩

/-- What is wrong with a string is never a number. -/
theorem readString_ne_tooLong (s : Text) (n : Nat) : readString s ≠ .error (.integerTooLong n) := by
  intro h
  rw [readString, map_eq_error_iff] at h
  fun_induction readPieces s with
  | case7 a b d e r' _ u hu _ _ ih => exact ih (map_eq_error_iff.1 h)
  | case10 e r' _ k hk _ _ ih => exact ih (map_eq_error_iff.1 h)
  | case11 c r' hq hlo hb ih => exact ih (map_eq_error_iff.1 h)
  | _ => cases h

end Rest

end Json

end TreePlan
