import Mathlib.Data.List.Chain
import Mathlib.Data.List.TakeWhile
import TreePlan.Text.Blank

/-! How texts are cut: after a beginning, where a run of characters ends, and at separators. -/

namespace TreePlan

namespace Text

variable {p : CodePoint → Bool} {s t r : Text} {c : CodePoint}

theorem after?_eq_some_iff : after? s t = some r ↔ t = s ++ r :=
  List.isPrefixOf?_eq_some_iff_append_eq.trans eq_comm

/-- A run of characters ends before the first that does not belong to it. -/
theorem takeWhile_append_cons (ht : ∀ x ∈ t, p x = true) (hc : p c = false) :
    (t ++ c :: r).takeWhile p = t := by
  rw [List.takeWhile_append_of_pos ht, List.takeWhile_cons_of_neg (by simp [hc]), List.append_nil]

theorem dropWhile_append_cons (ht : ∀ x ∈ t, p x = true) (hc : p c = false) :
    (t ++ c :: r).dropWhile p = c :: r := by
  rw [List.dropWhile_append_of_pos ht, List.dropWhile_cons_of_neg (by simp [hc])]

/-- A run of characters that has all of a text in it and ends there, or with the whole. -/
theorem run_append (ht : ∀ x ∈ t, p x = true) (hr : ∀ c ∈ r.head?, p c = false) :
    (t ++ r).takeWhile p = t ∧ (t ++ r).dropWhile p = r := by
  cases r with
  | nil =>
    rw [List.append_nil]
    exact ⟨List.takeWhile_eq_self_iff.2 ht, List.dropWhile_eq_nil_iff.2 ht⟩
  | cons c r => exact ⟨takeWhile_append_cons ht (hr c rfl), dropWhile_append_cons ht (hr c rfl)⟩

/-- A beginning is found before an ending that could not go on with it. -/
theorem after?_append {a x : Text} (hx : ∀ c ∈ x.head?, c ∉ a) (s : Text) :
    after? a (s ++ x) = (after? a s).map (· ++ x) := by
  induction s generalizing a with
  | nil =>
    cases a with
    | nil => rfl
    | cons d a =>
      cases x with
      | nil => rfl
      | cons c x =>
        have hd : ¬d = c := fun he => hx c rfl (he ▸ List.mem_cons_self)
        simp [after?, List.isPrefixOf?, hd]
  | cons c s ih =>
    cases a with
    | nil => rfl
    | cons d a =>
      have htail := ih (a := a) fun c hc hm => hx c hc (List.mem_cons_of_mem _ hm)
      by_cases hd : d = c
      · simpa [after?, List.isPrefixOf?, hd] using htail
      · simp [after?, List.isPrefixOf?, hd]

theorem startsWith_eq_isSome (t start : Text) : startsWith t start = (after? start t).isSome := by
  rw [Bool.eq_iff_iff, startsWith, List.isPrefixOf_iff_prefix, Option.isSome_iff_exists]
  simp only [after?_eq_some_iff]
  exact exists_congr fun r => eq_comm

/-- A run of characters ends before an ending that does not go on with it. -/
theorem takeWhile_append {x : Text} (hx : ∀ c ∈ x.head?, p c = false) (s : Text) :
    (s ++ x).takeWhile p = s.takeWhile p ∧ (s ++ x).dropWhile p = s.dropWhile p ++ x := by
  induction s with
  | nil =>
    have h := run_append (t := []) (by simp) hx
    simpa using h
  | cons c s ih =>
    by_cases hc : p c = true
    · simpa [hc] using ih
    · simp [hc]

/-- What has a character in it has it before an ending that does not. -/
theorem append_eq_append_cons_iff {x : Text} (hx : c ∉ x) :
    s ++ x = t ++ c :: r ↔ ∃ r', s = t ++ c :: r' ∧ r = r' ++ x := by
  constructor
  · intro h
    rcases List.append_eq_append_iff.1 h.symm with ⟨u, rfl, hu⟩ | ⟨u, rfl, hu⟩
    · cases u with
      | nil =>
        rw [List.nil_append] at hu
        exact absurd (hu ▸ List.mem_cons_self) hx
      | cons d u =>
        obtain ⟨rfl, rfl⟩ := List.cons.inj hu
        exact ⟨u, rfl, rfl⟩
    · exact absurd (hu ▸ List.mem_append_right u List.mem_cons_self) hx
  · rintro ⟨r', rfl, rfl⟩
    rw [List.append_assoc, List.cons_append]

theorem isBlank_head?_dropBlanks (t : Text) : ∀ c ∈ t.dropBlanks.head?, c.isBlank = false := by
  intro c hc
  have hhead := List.head?_dropWhile_not CodePoint.isBlank t
  rw [dropBlanks] at hc
  rwa [hc] at hhead

theorem notMem_spaces {n : Nat} (hc : c ≠ CodePoint.ofChar ' ') : c ∉ List.replicate n (CodePoint.ofChar ' ') :=
  fun hm => hc (List.eq_of_mem_replicate hm)

/-- Spaces in front of a text that does not begin with a blank are all of its indentation. -/
theorem spaces_append (n : Nat) (hr : ∀ c ∈ r.head?, c.isBlank = false) :
    leadingBlanks (List.replicate n (CodePoint.ofChar ' ') ++ r) = List.replicate n (CodePoint.ofChar ' ') ∧
      dropBlanks (List.replicate n (CodePoint.ofChar ' ') ++ r) = r := by
  have hspaces : ∀ x ∈ List.replicate n (CodePoint.ofChar ' '), x.isBlank = true := by
    intro x hx
    rw [List.eq_of_mem_replicate hx]
    rfl
  exact run_append hspaces hr

theorem splitOn_append_cons {sep : CodePoint} (h : sep ∉ t) (r : Text) :
    splitOn sep (t ++ sep :: r) = t :: splitOn sep r := by
  induction t with
  | nil => rw [List.nil_append, splitOn, if_pos rfl]
  | cons c t ih =>
    rw [List.mem_cons, not_or] at h
    rw [List.cons_append, splitOn, if_neg (Ne.symm h.1), ih h.2]

/-- Pieces without a separator are what the text of them all is split into. -/
theorem splitOn_unlines {sep : CodePoint} {ts : List Text} (hne : ts ≠ []) (h : ∀ t ∈ ts, sep ∉ t) :
    splitOn sep (unlines [sep] ts) = ts := by
  induction ts with
  | nil => exact absurd rfl hne
  | cons t ts ih =>
    have ht : sep ∉ t := h t (by simp)
    cases ts with
    | nil => rw [unlines_singleton, splitOn_eq_singleton ht]
    | cons u ts =>
      have hrest := ih (by simp) fun t' h' => h t' (by simp [h'])
      rw [unlines_cons_cons, List.append_assoc, List.singleton_append, splitOn_append_cons ht, hrest]

theorem unlines_append_cons (sep : Text) {ts : List Text} (hts : ts ≠ []) (u : Text) (us : List Text) :
    unlines sep (ts ++ u :: us) = unlines sep ts ++ sep ++ unlines sep (u :: us) := by
  induction ts with
  | nil => exact absurd rfl hts
  | cons t ts ih =>
    cases ts with
    | nil => rw [List.singleton_append, unlines_cons_cons, unlines_singleton]
    | cons v ts =>
      rw [List.cons_append, List.cons_append, unlines_cons_cons, ← List.cons_append,
        ih (by simp), unlines_cons_cons]
      simp only [List.append_assoc]

theorem unlines_eq_append (sep t : Text) (ts : List Text) :
    ∃ u, unlines sep (t :: ts) = t ++ u := by
  cases ts with
  | nil => exact ⟨[], by rw [unlines_singleton, List.append_nil]⟩
  | cons v ts => exact ⟨_, by rw [unlines_cons_cons, List.append_assoc]⟩

end Text

end TreePlan
