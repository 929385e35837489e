import TreePlan.Proofs.Text.Numeral
import TreePlan.Proofs.Text.Scanning

/-! Digits read as numbers. Decimal digits denote a number, in whatever scripts they are written, if there are
not too many of them. A digit of any other kind ends the reading where it stands. -/

namespace TreePlan

namespace CodePoint

variable {c : CodePoint}

theorem isDigit_of_isDecimal (h : c.isDecimal = true) : c.isDigit = true := by
  rw [isDigit, h, Bool.true_or]

theorem isDigit_eq_false_of_isBlank (h : c.isBlank = true) : c.isDigit = false := by
  have hall : ∀ n ∈ [0x85, 0xA0, 0x1680, 0x2028, 0x2029, 0x202F, 0x205F, 0x3000] ++
      (List.range' 0x09 5 ++ List.range' 0x1C 5 ++ List.range' 0x2000 11), (ofNat n).isDigit = false := by
    decide
  rw [← ofNat_val c]
  apply hall
  simp only [isBlank, Bool.or_eq_true, Bool.and_eq_true, decide_eq_true_eq, beq_iff_eq] at h
  simp only [List.mem_append, List.mem_cons, List.not_mem_nil, or_false, List.mem_range'_1]
  omega

end CodePoint

namespace Numeral

variable {t run rest : Text}

/-- The number that decimal digits stand for, the last with weight one. -/
def denoted (t : Text) : Nat := Nat.ofDigits 10 (t.reverse.map fun c => c.decimal?.getD 0)

theorem isPadding_eq_false_of_isDigit {c : CodePoint} (h : c.isDigit = true) : isPadding c = false := by
  by_contra hp
  rw [Bool.not_eq_false, isPadding, Bool.and_eq_true] at hp
  rw [CodePoint.isDigit_eq_false_of_isBlank hp.1] at h
  cases h

theorem trim_digits (h : ∀ c ∈ t, c.isDigit = true) : trim t = t := by
  have hdrop {s : Text} (hs : ∀ c ∈ s, c.isDigit = true) : s.dropWhile isPadding = s := by
    cases s with
    | nil => rfl
    | cons c s =>
      exact List.dropWhile_cons_of_neg (by simp [isPadding_eq_false_of_isDigit (hs c (by simp))])
  rw [trim, hdrop h, hdrop (by simpa using h), List.reverse_reverse]

theorem decimals_eq_map (h : ∀ c ∈ run, c.isDecimal = true) :
    run.filterMap CodePoint.decimal? = run.map fun c => c.decimal?.getD 0 := by
  induction run with
  | nil => rfl
  | cons c run ih =>
    obtain ⟨d, hd⟩ := Option.isSome_iff_exists.1 (h c (by simp))
    rw [List.filterMap_cons_some hd, ih fun x hx => h x (by simp [hx]), List.map_cons, hd]
    rfl

theorem hasDoubleUnderscore_eq_false (h : CodePoint.ofChar '_' ∉ t) : hasDoubleUnderscore t = false := by
  fun_induction hasDoubleUnderscore t with
  | case1 c d r ih =>
    rw [List.mem_cons, not_or] at h
    simp [Ne.symm h.1, ih h.2]
  | case2 => rfl

/-- A numeral is read from decimal digits at the front, and only if they are all there is. -/
theorem readNat_append (hrun : ∀ c ∈ run, c.isDecimal = true)
    (hrest : ∀ c ∈ rest.head?, c.isDecimal = false ∧ c ≠ CodePoint.ofChar '_') :
    readNat (run ++ rest) =
      if run = [] then .error .malformed
      else if digitLimit < run.length then .error (.tooLong run.length)
      else if rest = [] then .ok (denoted run)
      else .error .malformed := by
  have hscore : CodePoint.ofChar '_' ∉ run := fun hm => absurd (hrun _ hm) (by decide)
  have htake : (run ++ rest).takeWhile (fun c => c.isDecimal || c = CodePoint.ofChar '_') = run :=
    (Text.run_append (fun c hc => by simp [hrun c hc]) fun c hc => by simp [hrest c hc]).1
  have hhead : run.head? ≠ some '_' := fun he => hscore (List.mem_of_mem_head? he)
  have hlast : run.getLast? ≠ some '_' := fun he => hscore (List.mem_of_getLast? he)
  have hdigits : (run.map fun c => c.decimal?.getD 0).foldl (fun n d => n * 10 + d) 0 = denoted run := by
    rw [Text.foldl_eq_ofDigits, ← List.map_reverse, denoted]
  have hguard : (run.isEmpty || run.head? = some '_' || run.getLast? = some '_' ||
      hasDoubleUnderscore run) = run.isEmpty := by
    rw [decide_eq_false hhead, decide_eq_false hlast, hasDoubleUnderscore_eq_false hscore]
    simp only [Bool.or_false]
  unfold readNat
  dsimp only
  rw [htake, hguard, decimals_eq_map hrun, hdigits, List.length_map, List.length_append]
  by_cases hnil : run = []
  · simp [hnil]
  · by_cases hend : rest = []
    · simp [hnil, hend]
    · simp [hnil, hend, List.length_pos_iff.2 hend]

theorem readInt_digits (hne : t ≠ []) (h : ∀ c ∈ t, c.isDigit = true) :
    readInt t = (readNat t).map Int.ofNat := by
  obtain ⟨c, r, rfl⟩ := List.exists_cons_of_ne_nil hne
  have hc : c.isDigit = true := h c (by simp)
  have hsign {d : CodePoint} (hd : d.isDigit = false) : c ≠ d := by
    rintro rfl
    rw [hc] at hd
    cases hd
  unfold readInt
  rw [trim_digits h]
  dsimp only
  rw [if_neg (hsign (by decide)), if_neg (hsign (by decide))]

end Numeral

end TreePlan
