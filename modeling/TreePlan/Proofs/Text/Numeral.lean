import Mathlib.Data.List.Induction
import Mathlib.Data.Nat.Digits.Defs
import Mathlib.Tactic.Ring
import TreePlan.Text.Numeral

/-! Numbers written in digits, and digits read as numbers. The digits of a number have that number as
their value, in any base up to sixteen, and there are no more of them than its size asks for. -/

namespace TreePlan

namespace Text

variable {base n : Nat}

theorem hexDigit?_digitChar (h : n < 16) : (digitChar n).hexDigit? = some n := by
  have hall : ∀ k : Fin 16, (digitChar k).hexDigit? = some k.val := by decide
  exact hall ⟨n, h⟩

theorem valueOf_concat (base : Nat) (d : Text) (c : CodePoint) :
    valueOf base (d ++ [c]) = valueOf base d * base + c.hexDigit?.getD 0 := by
  simp [valueOf]

/-- Digits taken one by one, the first first, make up the number that they stand for. -/
theorem foldl_eq_ofDigits (base : Nat) (ds : List Nat) :
    ds.foldl (fun n d => n * base + d) 0 = Nat.ofDigits base ds.reverse := by
  induction ds using List.reverseRecOn with
  | nil => rfl
  | append_singleton ds d ih =>
    rw [List.foldl_append, List.foldl_cons, List.foldl_nil, ih, List.reverse_concat, Nat.ofDigits_cons]
    ring

/-- The value of digits is what they stand for in positional notation, the last with weight one. -/
theorem valueOf_eq_ofDigits (base : Nat) (d : Text) :
    valueOf base d = Nat.ofDigits base (d.reverse.map fun c => c.hexDigit?.getD 0) := by
  rw [List.map_reverse, ← foldl_eq_ofDigits, List.foldl_map, valueOf]

/-- What holds of zero, and of a number if of its quotient by the base, holds of all numbers. -/
theorem quotient_induction {P : Nat → Prop} (hb : 2 ≤ base) (zero : P 0)
    (quotient : ∀ n, 0 < n → P (n / base) → P n) (n : Nat) : P n := by
  induction n using Nat.strongRecOn with
  | ind n ih =>
    rcases Nat.eq_zero_or_pos n with rfl | hn
    · exact zero
    · exact quotient n hn (ih _ (Nat.div_lt_self hn hb))

theorem positional_zero (base : Nat) (acc : Text) : positional base 0 acc = acc := by
  rw [positional, dif_pos (.inl rfl)]

theorem positional_append (hb : 2 ≤ base) (n : Nat) (acc : Text) :
    positional base n acc = positional base n [] ++ acc := by
  induction n using quotient_induction hb generalizing acc with
  | zero => simp [positional_zero]
  | quotient n hn ih =>
    have hstep (acc : Text) :
        positional base n acc = positional base (n / base) (digitChar (n % base) :: acc) := by
      rw [positional, dif_neg (by omega)]
    rw [hstep, hstep [], ih, ih [_], List.append_assoc]
    rfl

/-- The last digit comes from the remainder, those before it from the quotient. -/
theorem positional_pos (hb : 2 ≤ base) (hn : 0 < n) :
    positional base n [] = positional base (n / base) [] ++ [digitChar (n % base)] := by
  rw [positional, dif_neg (by omega), positional_append hb]

theorem valueOf_positional (hb : 2 ≤ base) (hb' : base ≤ 16) (n : Nat) :
    valueOf base (positional base n []) = n := by
  induction n using quotient_induction hb with
  | zero =>
    rw [positional_zero]
    rfl
  | quotient n hn ih =>
    have hlt : n % base < 16 := (Nat.mod_lt n (by omega)).trans_le hb'
    rw [positional_pos hb hn, valueOf_concat, ih, hexDigit?_digitChar hlt]
    exact Nat.div_add_mod' n base

theorem mem_positional (hb : 2 ≤ base) {c : CodePoint} (h : c ∈ positional base n []) :
    ∃ k < base, c = digitChar k := by
  induction n using quotient_induction hb with
  | zero =>
    rw [positional_zero] at h
    cases h
  | quotient n hn ih =>
    rw [positional_pos hb hn, List.mem_append, List.mem_singleton] at h
    rcases h with h | h
    · exact ih h
    · exact ⟨n % base, Nat.mod_lt n (by omega), h⟩

theorem length_positional_le (hb : 2 ≤ base) {k : Nat} (h : n < base ^ k) :
    (positional base n []).length ≤ k := by
  induction n using quotient_induction hb generalizing k with
  | zero =>
    rw [positional_zero]
    exact Nat.zero_le k
  | quotient n hn ih =>
    cases k with
    | zero =>
      rw [Nat.pow_zero] at h
      omega
    | succ k =>
      have hdiv : n / base < base ^ k := Nat.div_lt_of_lt_mul (by rwa [Nat.pow_succ'] at h)
      rw [positional_pos hb hn, List.length_append, List.length_singleton]
      exact Nat.succ_le_succ (ih hdiv)

/-- A number does not begin with a zero. -/
theorem positional_eq_cons (hb : 2 ≤ base) (hn : 0 < n) :
    ∃ k rest, positional base n [] = digitChar k :: rest ∧ 0 < k ∧ k < base := by
  induction n using quotient_induction hb with
  | zero => omega
  | quotient n hn ih =>
    rw [positional_pos hb hn]
    rcases Nat.eq_zero_or_pos (n / base) with h | h
    · have hlt : n < base := (Nat.div_eq_zero_iff_lt (by omega)).1 h
      rw [h, positional_zero, Nat.mod_eq_of_lt hlt]
      exact ⟨n, [], rfl, hn, hlt⟩
    · obtain ⟨k, rest, hrest, hk⟩ := ih h
      rw [hrest]
      exact ⟨k, _, rfl, hk⟩

/-- A padded number ends in its last digit too. -/
theorem padded_succ (hb : 2 ≤ base) {width : Nat} (h : n < base ^ (width + 1)) :
    padded base (width + 1) n = padded base width (n / base) ++ [digitChar (n % base)] := by
  have hzero : CodePoint.ofChar '0' = digitChar 0 := by decide
  rcases Nat.eq_zero_or_pos n with rfl | hn
  · simp [padded, positional_zero, List.replicate_succ', hzero]
  · have hdiv : n / base < base ^ width := Nat.div_lt_of_lt_mul (by rwa [Nat.pow_succ'] at h)
    have hle := length_positional_le hb hdiv
    rw [padded, padded, positional_pos hb hn, List.length_append, List.length_singleton,
      Nat.add_sub_add_right, List.append_assoc]

theorem hex_four (h : n < 0x10000) :
    hex 4 n = [digitChar (n / 4096), digitChar (n / 256 % 16), digitChar (n / 16 % 16),
      digitChar (n % 16)] := by
  have hb : 2 ≤ 16 := by decide
  have h₁ : n / 16 / 16 = n / 256 := by omega
  have h₂ : n / 256 / 16 % 16 = n / 4096 := by omega
  have h₃ : n / 256 / 16 / 16 = 0 := by omega
  rw [hex, padded_succ hb (by omega), padded_succ hb (by omega), padded_succ hb (by omega),
    padded_succ hb (by omega), h₁, h₂, h₃, padded, positional_zero]
  rfl

theorem isAsciiDigit_digitChar (h : n < 10) : (digitChar n).isAsciiDigit = true := by
  have hall : ∀ k : Fin 10, (digitChar k).isAsciiDigit = true := by decide
  exact hall ⟨n, h⟩

theorem isAsciiDigit_of_mem_ofNat {c : CodePoint} (h : c ∈ ofNat n) : c.isAsciiDigit = true := by
  unfold ofNat at h
  split at h
  · rw [List.mem_singleton.1 h]
    rfl
  · obtain ⟨k, hk, rfl⟩ := mem_positional (by decide) h
    exact isAsciiDigit_digitChar hk

theorem valueOf_ofNat (n : Nat) : valueOf 10 (ofNat n) = n := by
  unfold ofNat
  split
  · next h =>
    rw [h]
    rfl
  · exact valueOf_positional (by decide) (by decide) n

theorem length_ofNat_le {k : Nat} (hk : 0 < k) (h : n < 10 ^ k) : (ofNat n).length ≤ k := by
  unfold ofNat
  split
  · exact hk
  · exact length_positional_le (by decide) h

/-- Only zero begins with a zero. -/
theorem ofNat_eq_cons (n : Nat) : ∃ c r, ofNat n = c :: r ∧ c.isAsciiDigit = true ∧
    (c = CodePoint.ofChar '0' → r = []) := by
  unfold ofNat
  split
  · exact ⟨_, _, rfl, rfl, fun _ => rfl⟩
  · next h =>
    obtain ⟨k, r, hr, hpos, hlt⟩ := positional_eq_cons (by decide : 2 ≤ 10) (Nat.pos_of_ne_zero h)
    refine ⟨_, _, hr, isAsciiDigit_digitChar hlt, fun hzero => ?_⟩
    have hk := hexDigit?_digitChar (show k < 16 by omega)
    rw [hzero] at hk
    have h0 : some 0 = some k := hk
    cases h0
    omega

end Text

end TreePlan
