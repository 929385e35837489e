import Mathlib.Data.List.Chain
import TreePlan.Json.Printer
import TreePlan.Proofs.Json.Literal
import TreePlan.Proofs.Text.Numeral

/-! What is written for a text in quotes is a literal that spells it, in printable ASCII only. A high surrogate
directly before a low one would be read as another character, so a text is asked to have none. -/

namespace TreePlan

/-- No two neighbours would be read as one character. -/
def Text.Whole (t : Text) : Prop :=
  t.IsChain fun c d => (c.isHighSurrogate && d.isLowSurrogate) = false

instance (t : Text) : Decidable t.Whole :=
  inferInstanceAs (Decidable (t.IsChain fun c d => (c.isHighSurrogate && d.isLowSurrogate) = false))

/-- Nothing but printable ASCII. -/
def Text.Ascii (t : Text) : Prop := ∀ c ∈ t, 0x20 ≤ c.val ∧ c.val ≤ 0x7E

instance (t : Text) : Decidable t.Ascii :=
  decidable_of_iff (t.all fun c => 0x20 ≤ c.val && c.val ≤ 0x7E) (by simp [Text.Ascii])

namespace Text

variable {s t : Text}

theorem Ascii.append (hs : s.Ascii) (ht : t.Ascii) : (s ++ t).Ascii := List.forall_mem_append.2 ⟨hs, ht⟩

theorem Ascii.no_newline (h : t.Ascii) : CodePoint.ofChar '\n' ∉ t := by
  intro hm
  have hlo := (h _ hm).1
  revert hlo
  decide

/-- Without surrogates there are none to be joined. -/
theorem Whole.of_scalar (h : ∀ c ∈ t, c.isSurrogate = false) : t.Whole := by
  refine List.Pairwise.isChain (List.pairwise_of_forall_mem_list fun c hc d _ => ?_)
  have hhigh : c.isHighSurrogate = false := by
    have hc := h c hc
    simp only [CodePoint.isSurrogate, CodePoint.isHighSurrogate, Bool.and_eq_false_iff,
      decide_eq_false_iff_not] at hc ⊢
    omega
  rw [hhigh, Bool.false_and]

end Text

namespace Json

open Text (digitChar)

/-- The ways to write a character in quotes. -/
inductive Writes (c : CodePoint) : Text → Prop where
  | itself : 0x20 ≤ c.val → c.val ≤ 0x7E → c ≠ '"' → c ≠ '\\' → Writes c [c]
  | short {e : CodePoint} : (e, c) ∈ shortForms → Writes c [CodePoint.ofChar '\\', e]
  | unit : c.val < 0x10000 → Writes c (escapedUnit c.val)
  | pair {high low : CodePoint} :
      high.isHighSurrogate = true → low.isLowSurrogate = true → CodePoint.ofSurrogates high low = c →
      Writes c (escapedUnit high.val ++ escapedUnit low.val)

theorem writes_escaped (c : CodePoint) : Writes c (escaped c) := by
  unfold escaped
  split
  · next h => exact .short (by rw [h]; decide)
  split
  · next h => exact .short (by rw [h]; decide)
  split
  · next h => exact .short (by rw [h]; decide)
  split
  · next h => exact .short (by rw [h]; decide)
  split
  · next h => exact .short (by rw [h]; decide)
  split
  · next h =>
    have hc : c = CodePoint.ofNat 8 := by rw [← h, CodePoint.ofNat_val]
    exact .short (by rw [hc]; decide)
  split
  · next h =>
    have hc : c = CodePoint.ofNat 12 := by rw [← h, CodePoint.ofNat_val]
    exact .short (by rw [hc]; decide)
  split
  · next hq hb _ _ _ _ _ h => exact .itself h.1 h.2 hq hb
  split
  · next h => exact .unit h
  · next h =>
    have hlt := c.isLt
    have hhigh := val_ofNat (show 0xD800 + (c.val - 0x10000) / 0x400 < 0x110000 by omega)
    have hlow := val_ofNat (show 0xDC00 + c.val % 0x400 < 0x110000 by omega)
    rw [← hhigh, ← hlow]
    refine .pair ?_ ?_ ?_
    · rw [CodePoint.isHighSurrogate, hhigh, Bool.and_eq_true, decide_eq_true_eq, decide_eq_true_eq]
      omega
    · rw [CodePoint.isLowSurrogate, hlow, Bool.and_eq_true, decide_eq_true_eq, decide_eq_true_eq]
      omega
    · rw [CodePoint.ofSurrogates, hhigh, hlow]
      refine Eq.trans (congrArg CodePoint.ofNat ?_) (CodePoint.ofNat_val c)
      omega

/-- A numbered escape is four digits in base sixteen. -/
theorem isUnit_hex {c : CodePoint} (h : c.val < 0x10000) : IsUnit (Text.hex 4 c.val) c := by
  have ha := Text.hexDigit?_digitChar (show c.val / 4096 < 16 by omega)
  have hb := Text.hexDigit?_digitChar (show c.val / 256 % 16 < 16 by omega)
  have hd := Text.hexDigit?_digitChar (show c.val / 16 % 16 < 16 by omega)
  have he := Text.hexDigit?_digitChar (show c.val % 16 < 16 by omega)
  rw [Text.hex_four h]
  refine ⟨rfl, by simp [ha, hb, hd, he], ?_⟩
  simp only [Text.valueOf, List.foldl_cons, List.foldl_nil, ha, hb, hd, he, Option.getD_some]
  omega

theorem surrogate_lt {c : CodePoint} (h : c.isHighSurrogate = true ∨ c.isLowSurrogate = true) :
    c.val < 0x10000 := by
  simp only [CodePoint.isHighSurrogate, CodePoint.isLowSurrogate, Bool.and_eq_true,
    decide_eq_true_eq] at h
  omega

theorem escapedUnit_ascii {n : Nat} (h : n < 0x10000) : (escapedUnit n).Ascii := by
  have hdigit : ∀ k : Fin 16, 0x20 ≤ (digitChar k).val ∧ (digitChar k).val ≤ 0x7E := by decide
  have hlt (k : Nat) : k % 16 < 16 := Nat.mod_lt k (by decide)
  rw [escapedUnit, Text.hex_four h]
  refine Text.Ascii.append (by decide) ?_
  simp only [Text.Ascii, List.forall_mem_cons, List.not_mem_nil, false_implies, implies_true, and_true]
  exact ⟨hdigit ⟨n / 4096, by omega⟩, hdigit ⟨_, hlt _⟩, hdigit ⟨_, hlt _⟩, hdigit ⟨_, hlt _⟩⟩

/-- Line breaks are not written as themselves. -/
theorem escaped_ascii (c : CodePoint) : (escaped c).Ascii := by
  have hall : (shortForms.all fun p => 0x20 ≤ p.1.val && p.1.val ≤ 0x7E) = true := by decide
  have hshort : ∀ p ∈ shortForms, 0x20 ≤ p.1.val ∧ p.1.val ≤ 0x7E := by
    intro p hp
    simpa using List.all_eq_true.1 hall p hp
  have h := writes_escaped c
  generalize escaped c = w at h
  cases h with
  | itself hlo hhi => simpa [Text.Ascii] using ⟨hlo, hhi⟩
  | short he => simpa [Text.Ascii] using ⟨by decide, hshort _ he⟩
  | unit h => exact escapedUnit_ascii h
  | pair hh hl =>
    exact (escapedUnit_ascii (surrogate_lt (.inl hh))).append (escapedUnit_ascii (surrogate_lt (.inr hl)))

theorem printText_ascii (t : Text) : (printText t).Ascii := by
  have hquote : (Text.ofString "\"").Ascii := by decide
  refine (hquote.append fun c hc => ?_).append hquote
  obtain ⟨d, -, hd⟩ := List.mem_flatMap.1 hc
  exact escaped_ascii d c hd

section Spelling

variable {c : CodePoint} {w r t : Text}

/-- Where an escaped low surrogate comes first, it is the first character. -/
theorem Spelled.head_of_startsLow (h : Spelled w t) (hlow : StartsLow w) :
    ∃ low ∈ t.head?, low.isLowSurrogate = true := by
  obtain ⟨ds, low, r, hu, hl, hw⟩ := hlow
  cases h with
  | nil => cases hw
  | itself _ _ hb => exact absurd (List.cons.inj hw).1 hb
  | short he => exact absurd (List.cons.inj (List.cons.inj hw).2).1 (ne_unit_of_short he)
  | unit hv =>
    have heq := (List.cons.inj (List.cons.inj hw).2).2
    obtain ⟨rfl, -⟩ := hv.unique hu heq
    exact ⟨_, rfl, hl⟩
  | pair hv _ hh =>
    -- the first of a pair is a high one
    have heq := (List.cons.inj (List.cons.inj hw).2).2
    obtain ⟨rfl, -⟩ := hv.unique hu heq
    simp only [CodePoint.isHighSurrogate, CodePoint.isLowSurrogate, Bool.and_eq_true,
      decide_eq_true_eq] at hh hl
    omega

theorem Writes.spelled_append (h : Writes c w) (hwhole : Text.Whole (c :: t)) (hr : Spelled r t) :
    Spelled (w ++ r) (c :: t) := by
  cases h with
  | itself hlo _ hq hb => exact .itself hlo hq hb hr
  | short he => exact .short he hr
  | unit hlt =>
    refine .unit (isUnit_hex hlt) (fun hlone => ?_) hr
    obtain ⟨low, hhead, hlow⟩ := hr.head_of_startsLow hlone.2
    have hchain := (List.isChain_cons.1 hwhole).1 low hhead
    rw [hlone.1, hlow] at hchain
    cases hchain
  | pair hh hl hc =>
    subst hc
    rw [List.append_assoc]
    exact .pair (isUnit_hex (surrogate_lt (.inl hh))) (isUnit_hex (surrogate_lt (.inr hl))) hh hl hr

theorem spelled_printed (h : t.Whole) : Spelled (t.flatMap escaped) t := by
  induction t with
  | nil => exact .nil
  | cons c t ih =>
    rw [List.flatMap_cons]
    exact (writes_escaped c).spelled_append h (ih (List.isChain_cons.1 h).2)

/-- A text in quotes is a literal that spells it. -/
theorem literal_printText (h : t.Whole) : Literal (printText t) t := by
  refine ⟨t.flatMap escaped, ?_, spelled_printed h⟩
  rw [printText, List.append_assoc]
  rfl

theorem printText_append (t r : Text) :
    printText t ++ r = CodePoint.ofChar '"' :: (t.flatMap escaped ++ CodePoint.ofChar '"' :: r) := by
  rw [printText, List.append_assoc, List.append_assoc]
  rfl

/-- A text in quotes is read as it was. -/
theorem readString_printed (h : t.Whole) (r : Text) :
    readString (t.flatMap escaped ++ CodePoint.ofChar '"' :: r) = .ok (t, r) :=
  readString_eq_ok_iff.2 ⟨_, spelled_printed h, rfl⟩

end Spelling

end Json

end TreePlan
