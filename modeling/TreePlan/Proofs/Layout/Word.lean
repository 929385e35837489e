import TreePlan.Proofs.Json.Quoting

/-! Words with quotes and without. A literal is read as what it spells, up to the quote that closes it, and a
word without quotes up to the first blank or stop. -/

namespace TreePlan

namespace Token

open Json (Literal)

variable {label stops s t r q v : Text}

/-- Both readers of a literal come to the same end, so what is spelled is what is read. -/
theorem readQuoted_eq_ok_iff (hs : s.head? = some (CodePoint.ofChar '"')) :
    readQuoted label s = .ok (v, r) ↔ ∃ q, Literal q v ∧ s = q ++ r := by
  refine ⟨fun h => ?_, ?_⟩
  · obtain ⟨s, rfl⟩ := List.head?_eq_some_iff.1 hs
    unfold readQuoted at h
    split at h
    · cases h
    · next l rest hl =>
      obtain ⟨⟨l', r'⟩, hclose, he⟩ := Option.map_eq_some_iff.1 hl
      cases he
      split at h
      · next u hread =>
        cases h
        exact ⟨_, Json.literal_of_read hclose hread, congrArg _ (throughQuote?_append hclose)⟩
      · cases h
      · cases h
  · rintro ⟨q, hq, rfl⟩
    rw [readQuoted, hq.literal?_append]
    dsimp only
    rw [hq.read]

/-- A text begins with one literal at most. -/
theorem literal_unique {q' v' r' : Text} (h : Literal q v) (h' : Literal q' v') (he : q ++ r = q' ++ r') :
    q = q' ∧ v = v' ∧ r = r' := by
  have hclose := h.literal?_append r
  rw [he, h'.literal?_append] at hclose
  obtain ⟨rfl, rfl⟩ := Prod.mk.inj (Option.some.inj hclose)
  have hread := h.read
  rw [h'.read] at hread
  cases hread
  exact ⟨rfl, rfl, rfl⟩

theorem readWord_literal (h : Literal q v) (r : Text) : readWord label stops (q ++ r) = .ok (v, r) := by
  have hquote : (q ++ r).head? = some (CodePoint.ofChar '"') := by
    obtain ⟨w, rfl, -⟩ := h
    rfl
  obtain ⟨s, hs⟩ := List.head?_eq_some_iff.1 hquote
  have hstart : Text.startsWith (q ++ r) "\"" = true := by
    rw [hs]
    rfl
  rw [readWord, if_pos hstart]
  exact (readQuoted_eq_ok_iff hquote).2 ⟨q, h, rfl⟩

/-- A word without quotes runs up to the first blank or stop. -/
theorem readWord_bare (ht : ∀ c ∈ t, c.isBlank = false ∧ c ∉ stops) (hq : t.head? ≠ some (CodePoint.ofChar '"'))
    (hne : t ≠ []) (hr : ∀ c ∈ r.head?, c.isBlank = true ∨ c ∈ stops) :
    readWord label stops (t ++ r) = .ok (t, r) := by
  have hbare : ∀ c ∈ t, isBare stops c = true := by
    intro c hc
    obtain ⟨hblank, hstop⟩ := ht c hc
    simp [isBare, hblank, hstop]
  have hend : ∀ c ∈ r.head?, isBare stops c = false := by
    intro c hc
    rcases hr c hc with h | h <;> simp [isBare, h]
  have hstart : ¬Text.startsWith (t ++ r) "\"" = true := by
    intro h
    obtain ⟨s, hs⟩ := List.isPrefixOf_iff_prefix.1 h
    obtain ⟨c, t, rfl⟩ := List.exists_cons_of_ne_nil hne
    exact hq (congrArg some (List.cons.inj hs).1.symm)
  obtain ⟨htake, hdrop⟩ := Text.run_append hbare hend
  rw [readWord, if_neg hstart, readBare, htake, hdrop]

/-- A quoted word is read just where the text begins with a literal, of which there is one at most, as what the
literal spells, and each text without surrogates is spelled by some literal. So a word is read as it was meant
in each of its spellings, and without quotes too where nothing in it would end it. -/
theorem words_are_read_as_spelled (label stops : Text) :
    (∀ s v r : Text, s.head? = some (CodePoint.ofChar '"') →
      (readQuoted label s = .ok (v, r) ↔ ∃ q, Literal q v ∧ s = q ++ r)) ∧
    (∀ q v r q' v' r' : Text, Literal q v → Literal q' v' → q ++ r = q' ++ r' →
      q = q' ∧ v = v' ∧ r = r') ∧
    (∀ s : Text, (∀ c ∈ s, c.isSurrogate = false) →
      (∃ q, Literal q s) ∧ ∀ q r, Literal q s → readWord label stops (q ++ r) = .ok (s, r)) ∧
    ∀ s r : Text, s ≠ [] → (∀ c ∈ s, c.isBlank = false ∧ c ∉ stops) →
      s.head? ≠ some (CodePoint.ofChar '"') → (∀ c ∈ r.head?, c.isBlank = true ∨ c ∈ stops) →
      readWord label stops (s ++ r) = .ok (s, r) := by
  refine ⟨fun s v r hs => readQuoted_eq_ok_iff hs, fun q v r q' v' r' h h' he => literal_unique h h' he,
    fun s hs => ⟨⟨_, Json.literal_printText (Text.Whole.of_scalar hs)⟩, fun q r hq => readWord_literal hq r⟩,
    fun s r hne hs hquote hr => readWord_bare hs hquote hne hr⟩

/-- Two escaped surrogates that make one character, and an escaped slash. -/
def smileLiteral : Text := "\"\\uD83D\\ude00\\/\""

theorem words_are_read_smile :
    readQuoted "filename" (smileLiteral ++ "(7") = .ok ([CodePoint.ofNat 0x1F600, '/'], "(7") ∧
      readWord "filename" "(/" (smileLiteral ++ " x") = .ok ([CodePoint.ofNat 0x1F600, '/'], " x") ∧
      readWord "filename" "(/" ("a\"b" ++ "(644)") = .ok ("a\"b", "(644)") := by
  have hhigh : Json.IsUnit "D83D" (CodePoint.ofNat 0xD83D) := by decide
  have hlow : Json.IsUnit "de00" (CodePoint.ofNat 0xDE00) := by decide
  have hslash : Json.Spelled [CodePoint.ofChar '\\', CodePoint.ofChar '/'] [CodePoint.ofChar '/'] :=
    .short (by decide) .nil
  have hspelled := Json.Spelled.pair hhigh hlow (by decide) (by decide) hslash
  have hjoined : CodePoint.ofSurrogates (CodePoint.ofNat 0xD83D) (CodePoint.ofNat 0xDE00) =
      CodePoint.ofNat 0x1F600 := by decide
  rw [hjoined] at hspelled
  have hliteral : Literal smileLiteral [CodePoint.ofNat 0x1F600, CodePoint.ofChar '/'] :=
    ⟨_, by decide, hspelled⟩
  have hscalar : ∀ c ∈ [CodePoint.ofNat 0x1F600, CodePoint.ofChar '/'], c.isSurrogate = false := by
    simp only [List.forall_mem_cons]
    exact ⟨by decide, by decide, by simp⟩
  have hplain : ∀ c ∈ Text.ofString "a\"b", c.isBlank = false ∧ c ∉ Text.ofString "(/" := by
    show ∀ c ∈ [CodePoint.ofChar 'a', CodePoint.ofChar '"', CodePoint.ofChar 'b'], _
    simp only [List.forall_mem_cons]
    exact ⟨by decide, by decide, by decide, by simp⟩
  have hstop : ∀ c ∈ (Text.ofString "(644)").head?, c.isBlank = true ∨ c ∈ Text.ofString "(/" := by
    rintro c ⟨⟩
    exact .inr (by decide)
  obtain ⟨hread, -, hspell, hbare⟩ := words_are_read_as_spelled "filename" "(/"
  refine ⟨?_, ?_, ?_⟩
  · exact (hread (smileLiteral ++ "(7") _ _ (by decide)).2 ⟨smileLiteral, hliteral, rfl⟩
  · exact (hspell _ hscalar).2 smileLiteral " x" hliteral
  · exact hbare "a\"b" "(644)" (by decide) hplain (by decide) hstop

end Token

end TreePlan
