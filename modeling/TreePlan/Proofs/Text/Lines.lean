import TreePlan.Proofs.Text.Scanning

/-! The lines of a text that goes on. What follows the end of a line begins a new one, so the lines of both
are the lines of the one and then those of the other. -/

namespace TreePlan

namespace Text

variable {sep : CodePoint} {s t r : Text} {ts : List Text}

/-- The end of a text is the end of a line, in one of the ways in which a line can end. -/
def Terminated (t : Text) : Prop :=
  ∀ c ∈ t.getLast?, c = CodePoint.ofChar '\n' ∨ c = CodePoint.ofChar '\r'

instance (t : Text) : Decidable t.Terminated :=
  inferInstanceAs (Decidable (∀ c ∈ t.getLast?, c = CodePoint.ofChar '\n' ∨ c = CodePoint.ofChar '\r'))

theorem splitOn_append_sep (t r : Text) : splitOn sep (t ++ sep :: r) = splitOn sep t ++ splitOn sep r := by
  induction t with
  | nil =>
    rw [List.nil_append]
    exact if_pos rfl
  | cons c t ih =>
    rw [List.cons_append, splitOn, splitOn, ih]
    split
    · rfl
    · obtain ⟨p, ps, hp⟩ := List.exists_cons_of_ne_nil (splitOn_ne_nil sep t)
      rw [hp]
      rfl

theorem lines_append_newline (t r : Text) :
    lines (t ++ CodePoint.ofChar '\n' :: r) = splitOn '\n' t ++ lines r := by
  obtain ⟨p, ps, hp⟩ := List.exists_cons_of_ne_nil (List.reverse_ne_nil_iff.2 (splitOn_ne_nil '\n' r))
  unfold lines
  rw [splitOn_append_sep, List.reverse_append, hp]
  cases p with
  | nil => simp
  | cons c p => simp

theorem lines_nil : lines [] = [] := rfl

theorem lines_unlines (h : ∀ t ∈ ts, CodePoint.ofChar '\n' ∉ t) :
    lines (ts.flatMap fun t => t ++ [CodePoint.ofChar '\n']) = ts := by
  induction ts with
  | nil => rfl
  | cons t ts ih =>
    obtain ⟨ht, hts⟩ := List.forall_mem_cons.1 h
    rw [List.flatMap_cons, List.append_assoc, List.singleton_append, lines_append_newline,
      splitOn_eq_singleton ht, ih hts]
    rfl

theorem unifyNewlines_of_notMem (h : CodePoint.ofChar '\r' ∉ t) : unifyNewlines t = t := by
  fun_induction unifyNewlines t with
  | case1 => rfl
  | case2 => simp at h
  | case3 => rfl
  | case4 => simp at h
  | case5 => simp at h
  | case6 c d r hc ih => rw [ih fun hm => h (List.mem_cons_of_mem _ hm)]

/-- Line ends are unified in each of two texts by itself, unless the cut goes through one. -/
theorem unifyNewlines_append (h : r.head? ≠ some (CodePoint.ofChar '\n')) :
    unifyNewlines (t ++ r) = unifyNewlines t ++ unifyNewlines r := by
  fun_induction unifyNewlines t with
  | case1 => rfl
  | case2 =>
    cases r with
    | nil => rfl
    | cons d r =>
      rw [List.singleton_append, unifyNewlines, if_pos rfl, if_neg (by simpa using h)]
      rfl
  | case3 c hc =>
    cases r with
    | nil => simp [unifyNewlines, hc]
    | cons d r =>
      rw [List.singleton_append, unifyNewlines, if_neg hc]
      rfl
  | case4 t ih =>
    rw [List.cons_append, List.cons_append, unifyNewlines, if_pos rfl, if_pos rfl, ih]
    rfl
  | case5 d t hd ih =>
    rw [List.cons_append, List.cons_append, unifyNewlines, if_pos rfl, if_neg hd]
    exact congrArg _ ih
  | case6 c d t hc ih =>
    rw [List.cons_append, List.cons_append, unifyNewlines, if_neg hc]
    exact congrArg _ ih

theorem Terminated.tail {c : CodePoint} (h : Terminated (c :: t)) (ht : t ≠ []) : t.Terminated := by
  unfold Terminated at *
  rwa [List.getLast?_cons_of_ne_nil ht] at h

/-- With its line ends unified, a text that ends with the end of a line ends with a newline. -/
theorem Terminated.unify (h : t.Terminated) (ht : t ≠ []) :
    ∃ u, unifyNewlines t = u ++ [CodePoint.ofChar '\n'] := by
  fun_induction unifyNewlines t with
  | case1 => exact absurd rfl ht
  | case2 => exact ⟨[], rfl⟩
  | case3 c hc =>
    have hend : c = CodePoint.ofChar '\n' := (h c rfl).resolve_right hc
    exact ⟨[], by rw [hend]; rfl⟩
  | case4 t ih =>
    by_cases hnil : t = []
    · subst hnil
      exact ⟨[], rfl⟩
    · obtain ⟨u, hu⟩ := ih ((h.tail (by simp)).tail hnil) hnil
      exact ⟨CodePoint.ofChar '\n' :: u, congrArg _ hu⟩
  | case5 d t hd ih =>
    obtain ⟨u, hu⟩ := ih (h.tail (by simp)) (by simp)
    exact ⟨CodePoint.ofChar '\n' :: u, congrArg _ hu⟩
  | case6 c d t hc ih =>
    obtain ⟨u, hu⟩ := ih (h.tail (by simp)) (by simp)
    exact ⟨c :: u, congrArg _ hu⟩

/-- Lines that are added to a text that ends with the end of a line come after its own. -/
theorem lines_append_lines (ht : t.Terminated)
    (hts : ∀ s ∈ ts, s ≠ [] ∧ CodePoint.ofChar '\n' ∉ s ∧ CodePoint.ofChar '\r' ∉ s) :
    lines (unifyNewlines (t ++ ts.flatMap fun s => s ++ [CodePoint.ofChar '\n'])) =
      lines (unifyNewlines t) ++ ts := by
  have hhead : (ts.flatMap fun s => s ++ [CodePoint.ofChar '\n']).head? ≠ some (CodePoint.ofChar '\n') := by
    cases ts with
    | nil => simp
    | cons s ts =>
      obtain ⟨hne, hnewline, -⟩ := hts s List.mem_cons_self
      obtain ⟨c, s, rfl⟩ := List.exists_cons_of_ne_nil hne
      intro hc
      exact hnewline (Option.some.inj hc ▸ List.mem_cons_self)
  have hreturn : CodePoint.ofChar '\r' ∉ ts.flatMap fun s => s ++ [CodePoint.ofChar '\n'] := by
    intro hm
    obtain ⟨s, hs, hm⟩ := List.mem_flatMap.1 hm
    rcases List.mem_append.1 hm with hm | hm
    · exact (hts s hs).2.2 hm
    · exact absurd (List.mem_singleton.1 hm) (by decide)
  have hadded := lines_unlines fun s hs => (hts s hs).2.1
  rw [unifyNewlines_append hhead, unifyNewlines_of_notMem hreturn]
  by_cases hnil : t = []
  · subst hnil
    exact hadded
  · obtain ⟨u, hu⟩ := ht.unify hnil
    rw [hu, List.append_assoc, List.singleton_append, lines_append_newline, lines_append_newline, hadded,
      lines_nil, List.append_nil]

section Remnant

/-- The lines of a text that have an end. -/
def wholeLines (t : Text) : List Text := (splitOn '\n' t.unifyNewlines).dropLast

/-- What stands behind the last end of a line. -/
def remnant (t : Text) : Text := (splitOn '\n' t.unifyNewlines).getLast (splitOn_ne_nil _ _)

theorem splitOn_append_notMem (h : sep ∉ s) (t : Text) :
    splitOn sep (t ++ s) = (splitOn sep t).dropLast ++ [(splitOn sep t).getLast (splitOn_ne_nil sep t) ++ s] := by
  induction t with
  | nil => exact splitOn_eq_singleton h
  | cons c t ih =>
    obtain ⟨p, ps, hp⟩ := List.exists_cons_of_ne_nil (splitOn_ne_nil sep t)
    rw [List.cons_append]
    by_cases hc : c = sep
    · simp [splitOn, hc, ih, List.dropLast_cons_of_ne_nil, List.getLast_cons, splitOn_ne_nil]
    · cases ps with
      | nil => simp [splitOn, hc, ih, hp]
      | cons q qs => simp [splitOn, hc, ih, hp]

/-- A line that is added to a text goes on with what has no end yet. -/
theorem lines_append_line (hne : s ≠ []) (hn : CodePoint.ofChar '\n' ∉ s) (hr : CodePoint.ofChar '\r' ∉ s) (t : Text) :
    lines (unifyNewlines (t ++ (s ++ [CodePoint.ofChar '\n']))) = wholeLines t ++ [remnant t ++ s] := by
  have hhead : (s ++ [CodePoint.ofChar '\n']).head? ≠ some (CodePoint.ofChar '\n') := by
    obtain ⟨c, s, rfl⟩ := List.exists_cons_of_ne_nil hne
    intro hc
    exact hn (Option.some.inj hc ▸ List.mem_cons_self)
  have hreturn : CodePoint.ofChar '\r' ∉ s ++ [CodePoint.ofChar '\n'] := by
    rw [List.mem_append, not_or]
    exact ⟨hr, by decide⟩
  rw [unifyNewlines_append hhead, unifyNewlines_of_notMem hreturn, ← List.append_assoc, lines_append_newline,
    lines_nil, List.append_nil, splitOn_append_notMem hn]
  rfl

end Remnant

end Text

end TreePlan
