import TreePlan.Proofs.Encoding.Pieces

/-! UTF-8 that does not decode. More bytes do not mend it if the first of them is one of seven bits, since none
such is part of a longer character, and it does not help to read piece by piece. -/

namespace TreePlan.Utf8

variable {a : UInt8} {p q r b : Bytes} {c : CodePoint} {n position : Nat} {t s : Text} {f : DecodingFault}

theorem isContinuation_low {x : UInt8} (hx : x < 0x80) : isContinuation x = false := by
  have hlt : ¬(0x80 : UInt8) ≤ x := by
    rw [UInt8.not_le]
    exact hx
  simp [isContinuation, hlt]

theorem isSecond_low {x : UInt8} (hx : x < 0x80) (a : UInt8) : isSecond a x = false := by
  have hle : (0x80 : UInt8) ≤ (secondRange a).1 := by
    unfold secondRange
    split
    · decide
    split
    · decide
    split
    · decide
    split <;> decide
  have hlt : ¬(secondRange a).1 ≤ x := by
    rw [UInt8.not_le]
    exact UInt8.lt_of_lt_of_le hx hle
  simp [isSecond, hlt]

/-- A byte of seven bits is not part of a character that began before it. -/
theorem step2_of_low {x : UInt8} (hx : x < 0x80) (h : step2 a (r ++ x :: q) = .char c n) : step2 a r = .char c n := by
  cases r with
  | nil => simp [step2, isContinuation_low hx] at h
  | cons b r => exact h

theorem step3_of_low {x : UInt8} (hx : x < 0x80) (h : step3 a (r ++ x :: q) = .char c n) : step3 a r = .char c n := by
  rcases r with _ | ⟨b, _ | ⟨d, r⟩⟩
  · cases q <;> simp [step3, isSecond_low hx] at h
  · cases hb : isSecond a b <;> simp [step3, hb, isContinuation_low hx] at h
  · exact h

theorem step4_of_low {x : UInt8} (hx : x < 0x80) (h : step4 a (r ++ x :: q) = .char c n) : step4 a r = .char c n := by
  rcases r with _ | ⟨b, _ | ⟨d, _ | ⟨e, r⟩⟩⟩
  · rcases q with _ | ⟨d, _ | ⟨e, q⟩⟩ <;> simp [step4, isSecond_low hx] at h
  · cases hb : isSecond a b <;> rcases q with _ | ⟨e, q⟩ <;> simp [step4, hb, isContinuation_low hx] at h
  · cases hb : isSecond a b <;> cases hd : isContinuation d <;>
      simp [step4, hb, hd, isContinuation_low hx] at h
  · exact h

theorem step_of_low {x : UInt8} (hx : x < 0x80) (h : step a (r ++ x :: q) = .char c n) : step a r = .char c n := by
  unfold step at h ⊢
  by_cases h1 : a < 0x80
  · rwa [if_pos h1] at h ⊢
  rw [if_neg h1] at h ⊢
  by_cases h2 : a < 0xC2
  · rwa [if_pos h2] at h ⊢
  rw [if_neg h2] at h ⊢
  by_cases h3 : a < 0xE0
  · rw [if_pos h3] at h ⊢
    exact step2_of_low hx h
  rw [if_neg h3] at h ⊢
  by_cases h4 : a < 0xF0
  · rw [if_pos h4] at h ⊢
    exact step3_of_low hx h
  rw [if_neg h4] at h ⊢
  by_cases h5 : a < 0xF5
  · rw [if_pos h5] at h ⊢
    exact step4_of_low hx h
  · rwa [if_neg h5] at h ⊢

/-- What decodes with a byte of seven bits behind it decodes. -/
theorem decodeFrom_of_low {x : UInt8} (hx : x < 0x80) (h : decodeFrom position (p ++ x :: q) = (t, none)) :
    ∃ s, decodeFrom position p = (s, none) := by
  induction hp : p.length using Nat.strongRecOn generalizing p position t with
  | _ length ih =>
    cases p with
    | nil => exact ⟨[], decodeFrom.eq_1 position⟩
    | cons a r =>
      have h' : decodeFrom position (a :: (r ++ x :: q)) = (t, none) := h
      obtain ⟨c, n, s, hstep, hs, -⟩ := decodeFrom_cons_eq_none.1 h'
      have hstep := step_of_low hx hstep
      obtain ⟨hpos, hsize⟩ := step_size hstep
      have hlt : (r.drop (n - 1)).length < length := by
        rw [← hp, List.length_drop, List.length_cons]
        omega
      rw [List.drop_append_of_le_length (by omega)] at hs
      obtain ⟨s', hs'⟩ := ih _ hlt hs rfl
      exact ⟨c :: s', decodeFrom_cons_eq_none.2 ⟨c, n, s', hstep, hs', rfl⟩⟩

/-- Where the bytes from a fault on decode with more behind them, all do. -/
theorem decodeFrom_append_of_fault (hp : decodeFrom position p = (t, some f)) :
    ∃ k, f.start = position + k ∧ ∀ {q s}, decodeFrom 0 (p.drop k ++ q) = (s, none) →
      decodeFrom position (p ++ q) = (t ++ s, none) := by
  induction hlen : p.length using Nat.strongRecOn generalizing p position t with
  | _ length ih =>
    cases p with
    | nil =>
      rw [decodeFrom] at hp
      cases hp
    | cons a r =>
      rw [decodeFrom] at hp
      cases hstep : step a r with
      | bad n defect =>
        rw [hstep] at hp
        cases hp
        exact ⟨0, rfl, fun hq => decodeFrom_position position hq⟩
      | char c n =>
        rw [hstep] at hp
        obtain ⟨rfl, hfault⟩ := Prod.mk.inj hp
        obtain ⟨hpos, hsize⟩ := step_size hstep
        have hlt : (r.drop (n - 1)).length < length := by
          rw [← hlen, List.length_drop, List.length_cons]
          omega
        obtain ⟨k, hk, hrest⟩ := ih _ hlt (Prod.ext rfl hfault) rfl
        refine ⟨n + k, by omega, @fun q s hq => ?_⟩
        have hdrop : (a :: r).drop (n + k) = (r.drop (n - 1)).drop k := by
          rw [show n + k = n - 1 + k + 1 by omega, List.drop_succ_cons, List.drop_drop]
        rw [hdrop] at hq
        have hq := hrest hq
        rw [← List.drop_append_of_le_length (by omega)] at hq
        rcases step_append a r q with heq | ⟨m, hbad⟩
        · exact decodeFrom_cons_eq_none.2 ⟨c, n, _, heq.trans hstep, hq, rfl⟩
        · rw [hstep] at hbad
          cases hbad

/-- Bytes that decode piece by piece decode as a whole. -/
theorem decodeFrom_of_decodePieces {pending : Bytes} (h : decodePieces pending b = (t, none)) :
    decodeFrom 0 (pending ++ b) = (t, none) := by
  induction hb : b.length using Nat.strongRecOn generalizing b pending t with
  | _ length ih =>
    rw [decodePieces] at h
    split at h
    · next hzero =>
      rw [List.length_eq_zero_iff.1 hzero] at h ⊢
      simpa using h
    · next hne =>
      have hlt : (b.drop pieceSize).length < length := by
        rw [← hb, List.length_drop, pieceSize]
        omega
      have hcut : pending ++ b = (pending ++ b.take pieceSize) ++ b.drop pieceSize := by
        rw [List.append_assoc, List.take_append_drop]
      rw [hcut]
      generalize pending ++ b.take pieceSize = piece at h
      dsimp only at h
      split at h
      · next hnone =>
        obtain ⟨rfl, hrest⟩ := Prod.mk.inj h
        exact decodeFrom_append_eq (Prod.ext rfl hnone) (ih _ hlt (Prod.ext rfl hrest) rfl)
      · next f hfault =>
        split at h
        · obtain ⟨rfl, hrest⟩ := Prod.mk.inj h
          have hstop : decodeFrom 0 piece = ((decodeFrom 0 piece).1, some f) := Prod.ext rfl hfault
          obtain ⟨k, hk, hall⟩ := decodeFrom_append_of_fault hstop
          rw [hk, Nat.zero_add] at hrest ⊢
          exact hall (ih _ hlt (Prod.ext rfl hrest) rfl)
        · cases h

end TreePlan.Utf8
