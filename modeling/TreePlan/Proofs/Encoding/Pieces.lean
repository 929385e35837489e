import TreePlan.Encoding.Utf8
import TreePlan.Proofs.FileSystem.Spelling

/-! UTF-8 that is read in pieces. Bytes that decode as a whole decode piece by piece to the same text,
wherever the pieces are cut: a character that is cut waits for its end. -/

namespace TreePlan.Utf8

variable {a : UInt8} {p q r b : Bytes} {c : CodePoint} {n position : Nat} {t s : Text}

/-- More bytes make a difference only where some were missing. -/
theorem step2_append (a : UInt8) (r q : Bytes) :
    step2 a (r ++ q) = step2 a r ∨ ∃ n, step2 a r = .bad n .unexpectedEnd := by
  cases r with
  | nil => exact .inr ⟨1, rfl⟩
  | cons b r => exact .inl rfl

theorem step3_append (a : UInt8) (r q : Bytes) :
    step3 a (r ++ q) = step3 a r ∨ ∃ n, step3 a r = .bad n .unexpectedEnd := by
  rcases r with _ | ⟨b, _ | ⟨c, r⟩⟩
  · exact .inr ⟨1, rfl⟩
  · cases hb : isSecond a b with
    | true => exact .inr ⟨2, by simp [step3, hb]⟩
    | false =>
      refine .inl ?_
      cases q <;> simp [step3, hb]
  · exact .inl rfl

theorem step4_append (a : UInt8) (r q : Bytes) :
    step4 a (r ++ q) = step4 a r ∨ ∃ n, step4 a r = .bad n .unexpectedEnd := by
  rcases r with _ | ⟨b, _ | ⟨c, _ | ⟨d, r⟩⟩⟩
  · exact .inr ⟨1, rfl⟩
  · cases hb : isSecond a b with
    | true => exact .inr ⟨2, by simp [step4, hb]⟩
    | false =>
      refine .inl ?_
      rcases q with _ | ⟨c, _ | ⟨d, q⟩⟩ <;> simp [step4, hb]
  · cases hb : isSecond a b with
    | true =>
      cases hc : isContinuation c with
      | true => exact .inr ⟨3, by simp [step4, hb, hc]⟩
      | false =>
        refine .inl ?_
        cases q <;> simp [step4, hb, hc]
    | false =>
      refine .inl ?_
      cases q <;> simp [step4, hb]
  · exact .inl rfl

theorem step_append (a : UInt8) (r q : Bytes) :
    step a (r ++ q) = step a r ∨ ∃ n, step a r = .bad n .unexpectedEnd := by
  unfold step
  split
  · exact .inl rfl
  split
  · exact .inl rfl
  split
  · exact step2_append a r q
  split
  · exact step3_append a r q
  split
  · exact step4_append a r q
  · exact .inl rfl

/-- A character ends within the bytes. -/
theorem step2_size (h : step2 a r = .char c n) : 0 < n ∧ n ≤ r.length + 1 := by
  cases r with
  | nil => cases h
  | cons b r =>
    simp only [step2] at h
    split at h <;> cases h
    simp

theorem step3_size (h : step3 a r = .char c n) : 0 < n ∧ n ≤ r.length + 1 := by
  rcases r with _ | ⟨b, _ | ⟨c, r⟩⟩
  · cases h
  · simp only [step3] at h
    split at h <;> cases h
  · simp only [step3] at h
    split at h
    · cases h
    · split at h <;> cases h
      simp

theorem step4_size (h : step4 a r = .char c n) : 0 < n ∧ n ≤ r.length + 1 := by
  rcases r with _ | ⟨b, _ | ⟨c, _ | ⟨d, r⟩⟩⟩
  · cases h
  · simp only [step4] at h
    split at h <;> cases h
  · simp only [step4] at h
    split at h
    · cases h
    · split at h <;> cases h
  · simp only [step4] at h
    split at h
    · cases h
    · split at h
      · cases h
      · split at h <;> cases h
        simp

theorem step_size (h : step a r = .char c n) : 0 < n ∧ n ≤ r.length + 1 := by
  unfold step at h
  split at h
  · cases h
    exact ⟨Nat.one_pos, Nat.le_add_left ..⟩
  split at h
  · cases h
  split at h
  · exact step2_size h
  split at h
  · exact step3_size h
  split at h
  · exact step4_size h
  · cases h

/-- Bytes decode where the first of them make a character and the rest decode. -/
theorem decodeFrom_cons_eq_none :
    decodeFrom position (a :: r) = (t, none) ↔
      ∃ c n s, step a r = .char c n ∧ decodeFrom (position + n) (r.drop (n - 1)) = (s, none) ∧ t = c :: s := by
  rw [decodeFrom]
  cases step a r with
  | bad n defect => simp
  | char c n =>
    dsimp only
    refine ⟨fun h => ?_, ?_⟩
    · obtain ⟨rfl, hnone⟩ := Prod.mk.inj h
      exact ⟨c, n, _, rfl, Prod.ext rfl hnone, rfl⟩
    · rintro ⟨c', n', s, ⟨⟩, hs, rfl⟩
      rw [hs]

/-- Where no fault is found, it does not matter from where positions are counted. -/
theorem decodeFrom_position (position' : Nat) (h : decodeFrom position b = (t, none)) :
    decodeFrom position' b = (t, none) := by
  induction hb : b.length using Nat.strongRecOn generalizing b position position' t with
  | _ length ih =>
    cases b with
    | nil =>
      rw [decodeFrom] at h ⊢
      exact h
    | cons a r =>
      obtain ⟨c, n, s, hstep, hs, rfl⟩ := decodeFrom_cons_eq_none.1 h
      have hlt : (r.drop (n - 1)).length < length := by
        rw [← hb, List.length_drop, List.length_cons]
        omega
      exact decodeFrom_cons_eq_none.2 ⟨c, n, s, hstep, ih _ hlt _ hs rfl, rfl⟩

/-- Where all bytes decode, so do the first of them, or the last character of these is cut. -/
theorem decodeFrom_append (h : decodeFrom position (p ++ q) = (t, none)) :
    ∃ t₁ t₂, t = t₁ ++ t₂ ∧
      (decodeFrom position p = (t₁, none) ∧ decodeFrom 0 q = (t₂, none) ∨
        ∃ f k, decodeFrom position p = (t₁, some f) ∧ f.defect = .unexpectedEnd ∧
          f.start = position + k ∧ decodeFrom 0 (p.drop k ++ q) = (t₂, none)) := by
  induction hp : p.length using Nat.strongRecOn generalizing p position t with
  | _ length ih =>
    cases p with
    | nil => exact ⟨[], t, rfl, .inl ⟨by rw [decodeFrom], decodeFrom_position 0 h⟩⟩
    | cons a r =>
      have h' : decodeFrom position (a :: (r ++ q)) = (t, none) := h
      obtain ⟨c, n, s, hstep, hs, rfl⟩ := decodeFrom_cons_eq_none.1 h'
      rcases step_append a r q with heq | ⟨m, hbad⟩
      · rw [heq] at hstep
        obtain ⟨hpos, hsize⟩ := step_size hstep
        have hle : n - 1 ≤ r.length := by omega
        have hlt : (r.drop (n - 1)).length < length := by
          rw [← hp, List.length_drop, List.length_cons]
          omega
        rw [List.drop_append_of_le_length hle] at hs
        obtain ⟨t₁, t₂, rfl, hrest⟩ := ih _ hlt hs rfl
        refine ⟨c :: t₁, t₂, rfl, ?_⟩
        rcases hrest with ⟨h₁, h₂⟩ | ⟨f, k, h₁, hf, hstart, h₂⟩
        · exact .inl ⟨decodeFrom_cons_eq_none.2 ⟨c, n, t₁, hstep, h₁, rfl⟩, h₂⟩
        · refine .inr ⟨f, n + k, ?_, hf, by omega, ?_⟩
          · rw [decodeFrom, hstep]
            dsimp only
            rw [h₁]
          · rw [List.drop_drop] at h₂
            have hdrop : (a :: r).drop (n + k) = r.drop (n - 1 + k) := by
              rw [show n + k = n - 1 + k + 1 by omega, List.drop_succ_cons]
            rwa [hdrop]
      · refine ⟨[], c :: s, rfl, .inr ⟨⟨a, position, position + m, .unexpectedEnd⟩, 0, ?_, rfl, rfl, ?_⟩⟩
        · rw [decodeFrom, hbad]
        · exact decodeFrom_position 0 h

/-- Bytes that decode as a whole decode piece by piece. -/
theorem decodePieces_of_decodeFrom {pending : Bytes} (h : decodeFrom 0 (pending ++ b) = (t, none)) :
    decodePieces pending b = (t, none) := by
  induction hb : b.length using Nat.strongRecOn generalizing b pending t with
  | _ length ih =>
    rw [decodePieces]
    split
    · next hzero =>
      rw [List.length_eq_zero_iff.1 hzero] at h ⊢
      simpa using h
    · next hne =>
      have hlt : (b.drop pieceSize).length < length := by
        rw [← hb, List.length_drop, pieceSize]
        omega
      have hcut : decodeFrom 0 ((pending ++ b.take pieceSize) ++ b.drop pieceSize) = (t, none) := by
        rwa [List.append_assoc, List.take_append_drop]
      obtain ⟨t₁, t₂, rfl, ⟨h₁, h₂⟩ | ⟨f, k, h₁, hf, hstart, h₂⟩⟩ := decodeFrom_append hcut
      · have hnext : decodeFrom 0 ([] ++ b.drop pieceSize) = (t₂, none) := h₂
        have hrest := ih _ hlt hnext rfl
        simp only [h₁, hrest]
      · have hwaits : waits f (pending ++ b.take pieceSize) = true := by simp [waits, hf]
        have hrest := ih _ hlt h₂ rfl
        rw [Nat.zero_add] at hstart
        simp only [h₁, hwaits, if_pos, hstart, hrest]

/-- What decodes before other bytes decodes with them. -/
theorem decodeFrom_append_eq (hp : decodeFrom position p = (t, none)) (hq : decodeFrom 0 q = (s, none)) :
    decodeFrom position (p ++ q) = (t ++ s, none) := by
  induction hlen : p.length using Nat.strongRecOn generalizing p position t with
  | _ length ih =>
    cases p with
    | nil =>
      rw [decodeFrom] at hp
      obtain ⟨rfl, -⟩ := Prod.mk.inj hp
      exact decodeFrom_position position hq
    | cons a r =>
      obtain ⟨c, n, s', hstep, hs, rfl⟩ := decodeFrom_cons_eq_none.1 hp
      obtain ⟨hpos, hsize⟩ := step_size hstep
      have hlt : (r.drop (n - 1)).length < length := by
        rw [← hlen, List.length_drop, List.length_cons]
        omega
      have hrest := ih _ hlt hs rfl
      rw [← List.drop_append_of_le_length (by omega)] at hrest
      rcases step_append a r q with heq | ⟨m, hbad⟩
      · exact decodeFrom_cons_eq_none.2 ⟨c, n, _, heq.trans hstep, hrest, rfl⟩
      · rw [hstep] at hbad
        cases hbad

/-- Characters of seven bits are bytes. -/
theorem decodeFrom_encodeName (h : ∀ c ∈ t, c.val < 0x80) : decodeFrom position (encodeName t) = (t, none) := by
  induction t generalizing position with
  | nil => exact decodeFrom.eq_1 position
  | cons c t ih =>
    obtain ⟨hc, ht⟩ := List.forall_mem_cons.1 h
    have hbyte : (UInt8.ofNat c.val).toNat = c.val := by
      rw [UInt8.toNat_ofNat']
      omega
    have hstep : step (UInt8.ofNat c.val) (encodeName t) = .char c 1 := by
      have hlow : UInt8.ofNat c.val < 0x80 := by
        rw [UInt8.lt_iff_toNat_lt, hbyte]
        exact hc
      rw [step, if_pos hlow, hbyte]
      simp [CodePoint.ofNat]
    rw [encodeName_cons, encodeNameChar_low hc]
    exact decodeFrom_cons_eq_none.2 ⟨c, 1, t, hstep, ih ht, rfl⟩

end TreePlan.Utf8
