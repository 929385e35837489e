import TreePlan.Proofs.Layout.Writing

/-! Where a permission block ends. A block with owners ends where it was written to end, whatever follows.
A mode alone between brackets does not stand for itself: two commas anywhere behind it, with a mode and a
bracket after the second, make one block of all that lies before. -/

namespace TreePlan

theorem IsMode.no_comma {d : Text} (h : IsMode d) : CodePoint.ofChar ',' ∉ d := by
  intro hm
  have hlo := (h.octal _ hm).1
  revert hlo
  decide

theorem IsMode.no_comma_close {d : Text} (h : IsMode d) :
    CodePoint.ofChar ',' ∉ d ++ [CodePoint.ofChar ')'] := by
  rw [List.mem_append, not_or]
  exact ⟨h.no_comma, by decide⟩

/-- A text before a comma has in it all that comes before the comma. -/
theorem Text.eq_append_of_comma {s t u v : Text} (hs : CodePoint.ofChar ',' ∉ s)
    (h : s ++ t = u ++ CodePoint.ofChar ',' :: v) :
    ∃ w, u = s ++ w ∧ t = w ++ CodePoint.ofChar ',' :: v := by
  rcases List.append_eq_append_iff.1 h with ⟨w, hu, ht⟩ | ⟨w, rfl, hw⟩
  · exact ⟨w, hu, ht⟩
  · cases w with
    | nil => exact ⟨[], by simp, by simpa using hw.symm⟩
    | cons c w =>
      obtain ⟨rfl, -⟩ := List.cons.inj hw
      simp at hs

namespace Token

variable {d r : Text}

/-- A block with owners, behind its opening bracket, and what follows it. -/
def ownedBlock (owner group d r : Text) : Text :=
  owner ++ CodePoint.ofChar ',' :: (group ++ CodePoint.ofChar ',' :: (d ++ CodePoint.ofChar ')' :: r))

/-- A mode alone, behind its opening bracket, and what follows it. -/
def bareBlock (d r : Text) : Text := d ++ CodePoint.ofChar ')' :: r

/-- What follows a block goes on like a block whose owner has begun. -/
def ReadsOn (r : Text) : Prop :=
  ∃ owner group d rest, CodePoint.ofChar ',' ∉ owner ∧ CodePoint.ofChar ',' ∉ group ∧ IsMode d ∧
    r = ownedBlock owner group d rest

theorem readOwnedMode?_eq_some_iff {s : Text} {p : Permission} : readOwnedMode? s = some (p, r) ↔
    ∃ owner group d, CodePoint.ofChar ',' ∉ owner ∧ CodePoint.ofChar ',' ∉ group ∧ IsMode d ∧
      s = ownedBlock owner group d r ∧
      p = ⟨Text.octalValue d, d, nonEmpty? owner, nonEmpty? group⟩ := by
  refine ⟨fun h => ?_, ?_⟩
  · simp only [readOwnedMode?, Option.bind_eq_bind, Option.bind_eq_some_iff] at h
    obtain ⟨⟨owner, s₁⟩, ho, ⟨group, s₂⟩, hg, ⟨d, s₃⟩, hm, he⟩ := h
    cases he
    obtain ⟨hocomma, rfl⟩ := readField?_eq_some_iff.1 ho
    obtain ⟨hgcomma, rfl⟩ := readField?_eq_some_iff.1 hg
    obtain ⟨hmode, rfl⟩ := readMode?_eq_some_iff.1 hm
    exact ⟨owner, group, d, hocomma, hgcomma, hmode, rfl, by rw [valueOf_octal hmode]⟩
  · rintro ⟨owner, group, d, ho, hg, hd, rfl, rfl⟩
    exact readOwnedMode?_write ho hg hd

theorem bareBlock_ownedBlock (d owner group d' r : Text) :
    bareBlock d (ownedBlock owner group d' r) = ownedBlock (bareBlock d owner) group d' r := by
  simp [bareBlock, ownedBlock]

/-- A mode alone begins a block with owners just when what follows it reads on. -/
theorem readOwnedMode?_bareBlock_iff (hd : IsMode d) :
    (∃ p rest, readOwnedMode? (bareBlock d r) = some (p, rest)) ↔ ReadsOn r := by
  refine ⟨?_, ?_⟩
  · rintro ⟨p, rest, h⟩
    obtain ⟨owner, group, d', ho, hg, hd', heq, -⟩ := readOwnedMode?_eq_some_iff.1 h
    -- the first comma lies behind the bracket, so the owner begins with the mode and the bracket
    rw [bareBlock, List.append_cons] at heq
    obtain ⟨w, rfl, hw⟩ := Text.eq_append_of_comma hd.no_comma_close heq
    exact ⟨w, group, d', rest, fun hm => ho (List.mem_append_right _ hm), hg, hd', hw⟩
  · rintro ⟨owner, group, d', rest, ho, hg, hd', rfl⟩
    rw [bareBlock_ownedBlock]
    refine ⟨_, rest, readOwnedMode?_eq_some_iff.2 ⟨_, group, d', ?_, hg, hd', rfl, rfl⟩⟩
    rw [bareBlock, List.append_cons, List.mem_append, not_or]
    exact ⟨hd.no_comma_close, ho⟩

/-- A block with owners that begins with a mode alone ends behind the end of that. -/
theorem rest_lt_of_readOwnedMode? (hd : IsMode d) {p : Permission} {rest : Text}
    (h : readOwnedMode? (bareBlock d r) = some (p, rest)) : rest.length < r.length := by
  obtain ⟨owner, group, d', -, -, -, heq, -⟩ := readOwnedMode?_eq_some_iff.1 h
  rw [bareBlock, List.append_cons] at heq
  obtain ⟨w, -, rfl⟩ := Text.eq_append_of_comma hd.no_comma_close heq
  simp only [List.length_append, List.length_cons]
  omega

theorem readPermission_bracket (s : Text) :
    readPermission (CodePoint.ofChar '(' :: s) =
      match readOwnedMode? s with
      | some p => .ok p
      | none =>
        match readBareMode? s with
        | some p => .ok p
        | none => .error .invalidPermission := by
  have hafter : Text.after? "(" (CodePoint.ofChar '(' :: s) = some s := rfl
  rw [readPermission, hafter]
  dsimp only
  cases readOwnedMode? s with
  | some p => rfl
  | none => cases readBareMode? s <;> rfl

theorem readBareMode?_bareBlock (hd : IsMode d) (r : Text) :
    readBareMode? (bareBlock d r) = some (⟨Text.octalValue d, d, none, none⟩, r) := by
  have hmode : readMode? (bareBlock d r) = some (d, r) := readMode?_eq_some_iff.2 ⟨hd, rfl⟩
  rw [readBareMode?, hmode, Option.map_some, valueOf_octal hd]

theorem readPermission_ownedBlock {owner group : Text} (ho : CodePoint.ofChar ',' ∉ owner)
    (hg : CodePoint.ofChar ',' ∉ group) (hd : IsMode d) :
    readPermission (CodePoint.ofChar '(' :: ownedBlock owner group d r) =
      .ok (⟨Text.octalValue d, d, nonEmpty? owner, nonEmpty? group⟩, r) :=
  readPermission_of_owned (readOwnedMode?_write ho hg hd)

theorem readPermission_bareBlock_iff (hd : IsMode d) :
    readPermission (CodePoint.ofChar '(' :: bareBlock d r) = .ok (⟨Text.octalValue d, d, none, none⟩, r) ↔
      ¬ReadsOn r := by
  rw [readPermission_bracket, ← readOwnedMode?_bareBlock_iff hd]
  cases hr : readOwnedMode? (bareBlock d r) with
  | none => simp [readBareMode?_bareBlock hd]
  | some q =>
    have hlt := rest_lt_of_readOwnedMode? hd hr
    refine iff_of_false (fun he => ?_) (not_not_intro ⟨q.1, q.2, rfl⟩)
    obtain rfl := Except.ok.inj he
    exact absurd hlt (lt_irrefl _)

theorem readPermission_bareBlock_ownedBlock {owner group d' : Text} (hd' : IsMode d')
    (ho : CodePoint.ofChar ',' ∉ owner) (hg : CodePoint.ofChar ',' ∉ group) (hd : IsMode d) :
    readPermission (CodePoint.ofChar '(' :: bareBlock d' (ownedBlock owner group d r)) =
      .ok (⟨Text.octalValue d, d, some (bareBlock d' owner), nonEmpty? group⟩, r) := by
  have hinto : CodePoint.ofChar ',' ∉ bareBlock d' owner := by
    rw [bareBlock, List.append_cons, List.mem_append, not_or]
    exact ⟨hd'.no_comma_close, ho⟩
  have hne : nonEmpty? (bareBlock d' owner) = some (bareBlock d' owner) := by
    cases d' <;> rfl
  rw [bareBlock_ownedBlock, readPermission_ownedBlock hinto hg hd, hne]

/-- A block with owners is read as it was written, and what is left is what follows it. A mode alone is so
too unless what follows reads on; then the block ends only there, and its owner begins with the mode. -/
theorem readPermission_block (owner group d r : Text) (ho : CodePoint.ofChar ',' ∉ owner)
    (hg : CodePoint.ofChar ',' ∉ group) (hd : IsMode d) :
    readPermission ("(" ++ owner ++ "," ++ group ++ "," ++ d ++ ")" ++ r) =
        .ok (⟨Text.octalValue d, d, nonEmpty? owner, nonEmpty? group⟩, r) ∧
      (readPermission ("(" ++ d ++ ")" ++ r) = .ok (⟨Text.octalValue d, d, none, none⟩, r) ↔
        ¬ReadsOn r) ∧
      ∀ d', IsMode d' →
        readPermission ("(" ++ d' ++ ")" ++ (owner ++ "," ++ group ++ "," ++ d ++ ")" ++ r)) =
          .ok (⟨Text.octalValue d, d, some (d' ++ ")" ++ owner), nonEmpty? group⟩, r) := by
  have howned : owner ++ "," ++ group ++ "," ++ d ++ ")" ++ r = ownedBlock owner group d r := by
    simp only [List.append_assoc]
    rfl
  have hbare (d r : Text) : "(" ++ d ++ ")" ++ r = CodePoint.ofChar '(' :: bareBlock d r := by
    simp only [List.append_assoc]
    rfl
  refine ⟨?_, ?_, fun d' hd' => ?_⟩
  · rw [← readPermission_ownedBlock ho hg hd, ← howned]
    rfl
  · rw [hbare]
    exact readPermission_bareBlock_iff hd
  · have hspell : d' ++ ")" ++ owner = bareBlock d' owner := (List.append_cons ..).symm
    rw [hbare, howned, hspell]
    exact readPermission_bareBlock_ownedBlock hd' ho hg hd

/-- A file and its target swallowed as an owner. -/
theorem readPermission_block_arrow :
    (CodePoint.ofChar ',' ∉ (" -> a" : Text) ∧ CodePoint.ofChar ',' ∉ ("b" : Text) ∧ IsMode "755") ∧
      readPermission "(644) -> a,b,755)" = .ok (⟨0o755, "755", some "644) -> a", some "b"⟩, []) := by
  have hmode : IsMode "755" := by decide
  have h := (readPermission_block " -> a" "b" "755" [] (by decide) (by decide) hmode).2.2 "644" (by decide)
  exact ⟨⟨by decide, by decide, hmode⟩, h⟩

end Token

end TreePlan
