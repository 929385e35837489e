import Mathlib
import TreePlan.Proofs.Layout.Remarks

/-! What the first lines of a layout come to. If a layout fails at a line, all lines before it can be read and all
layouts that begin with the same lines fail in the same way. If it can be read, its first lines make the entries
that it has on them. -/

namespace TreePlan

namespace Layout

/-- The first lines of a text, as a text. -/
def firstLines (n : Nat) (text : Text) : Text := Text.unlines "\n" ((Text.splitOn '\n' text).take n)

variable {strict : Bool} {ctx ctx' : Context} {text : Text} {es : List Entry} {xs : List (Text × Nat)}
  {e : SyntaxError}

theorem textRows_firstLines (n : Nat) (text : Text) :
    textRows (firstLines n text) = rows 1 ((Text.splitOn '\n' text).take n) := by
  cases n with
  | zero => rfl
  | succ n =>
    have hsplit : Text.splitOn '\n' (firstLines (n + 1) text) = (Text.splitOn '\n' text).take (n + 1) := by
      refine Text.splitOn_unlines ?_ fun line hm => Text.notMem_of_mem_splitOn (List.mem_of_mem_take hm)
      obtain ⟨line, lines, hlines⟩ := List.exists_cons_of_ne_nil (Text.splitOn_ne_nil '\n' text)
      simp [hlines]
    rw [textRows, hsplit]

theorem readRows_lines (h : readRows strict ctx xs = .ok (es, ctx')) : es.map Entry.line = xs.map Prod.snd := by
  induction xs generalizing ctx es with
  | nil =>
    cases h
    rfl
  | cons x xs ih =>
    obtain ⟨e, ctx₁, rest, hline, hrest, rfl⟩ := readRows_cons_eq_ok_iff.1 h
    obtain ⟨i, t, -, -, rfl, -⟩ := readLine_eq_ok_iff.1 hline
    rw [List.map_cons, List.map_cons, ih hrest]
    rfl

theorem line_mem_of_readRows (h : readRows strict ctx xs = .ok (es, ctx')) {e : Entry} (he : e ∈ es) :
    ∃ x ∈ xs, x.2 = e.line := by
  have hline : e.line ∈ xs.map Prod.snd := readRows_lines h ▸ List.mem_map_of_mem he
  simpa using hline

/-- The lines that can be read before a layout fails, and the line at which it does. -/
theorem exists_of_parse_invalid (h : parse strict text = .error (.invalid e)) :
    ∃ before after, Text.splitOn '\n' text = before ++ e.source :: after ∧ e.line = before.length + 1 ∧
      isSkipped e.source = false ∧ (∃ p, readRows strict {} (rows 1 before) = .ok p) ∧
      readRows strict {} (rows 1 (before ++ [e.source])) = .error (.invalid e) := by
  rw [parse_eq] at h
  obtain ⟨xs, source, line, ys, es, ctx, fault, hrows, hread, hfault, hf⟩ :=
    exists_of_readRows_error (map_eq_error_iff.1 h)
  obtain ⟨before, after, hlines, hnumber, hskip, rfl, -⟩ := exists_of_rows_eq hrows
  obtain rfl := ParseError.eq_of_ofLine hf.symm
  have hrow : rows 1 (before ++ [source]) = rows 1 before ++ [(source, line)] := by
    rw [rows_append, rows_cons, if_neg (by simp [hskip]), ← hnumber]
    rfl
  refine ⟨before, after, hlines, hnumber.trans (Nat.add_comm ..), hskip, ⟨_, hread⟩, ?_⟩
  rw [hrow, readRows_concat_error hread hfault, hf]

/-- What lines fail with, every text that begins with them fails with. -/
theorem parse_of_prefix {lines : List Text} (h : lines <+: Text.splitOn '\n' text) {f : ParseError}
    (hf : readRows strict {} (rows 1 lines) = .error f) : parse strict text = .error f := by
  obtain ⟨rest, hrest⟩ := h
  rw [parse_eq, textRows, ← hrest, rows_append, readRows_append_error hf]
  rfl

/-- Of a layout that can be read, the first lines make the entries that are on them. -/
theorem parse_firstLines_of_ok (h : parse strict text = .ok es) (n : Nat) :
    parse strict (firstLines n text) = .ok (es.filter fun e => e.line ≤ n) := by
  have hlines := List.take_append_drop n (Text.splitOn '\n' text)
  rw [parse_eq, textRows, ← hlines, rows_append, readRows_append] at h
  obtain ⟨q, hq, rfl⟩ := map_eq_ok_iff.1 h
  obtain ⟨⟨early, ctx⟩, hearly, hq⟩ := bind_eq_ok_iff.1 hq
  obtain ⟨⟨late, ctx'⟩, hlate, rfl⟩ := map_eq_ok_iff.1 hq
  have hkeep : early.filter (fun e => e.line ≤ n) = early := by
    refine List.filter_eq_self.2 fun e he => ?_
    obtain ⟨x, hx, hxe⟩ := line_mem_of_readRows hearly he
    have hlt := (mem_rows hx).2
    rw [List.length_take] at hlt
    rw [decide_eq_true_eq]
    omega
  have hdrop : late.filter (fun e => e.line ≤ n) = [] := by
    refine List.filter_eq_nil_iff.2 fun e he => ?_
    obtain ⟨x, hx, hxe⟩ := line_mem_of_readRows hlate he
    have hle := (mem_rows hx).1
    have hlt := (mem_rows hx).2
    rw [List.length_take, List.length_drop] at *
    rw [decide_eq_true_eq]
    omega
  rw [parse_eq, textRows_firstLines, hearly, List.filter_append, hkeep, hdrop, List.append_nil]
  rfl

/-- A layout that fails does so at one of its lines that is neither blank nor a comment, and quotes it. The lines
before it can be read, and whatever stands behind it, the failure is the same. Of a layout that can be read, the
first lines make the entries that are on them, however many lines these are. -/
theorem parse_firstLines (strict : Bool) (text : Text) :
    (∀ e, parse strict text = .error (.invalid e) →
      1 ≤ e.line ∧ e.line ≤ (Text.splitOn '\n' text).length ∧
      (Text.splitOn '\n' text)[e.line - 1]? = some e.source ∧ ¬IsRemark e.source ∧
      (∃ es, parse strict (firstLines (e.line - 1) text) = .ok es) ∧
      ∀ text', (Text.splitOn '\n' text).take e.line <+: Text.splitOn '\n' text' →
        parse strict text' = .error (.invalid e)) ∧
    ∀ es, parse strict text = .ok es →
      ∀ n, parse strict (firstLines n text) = .ok (es.filter fun e => e.line ≤ n) := by
  refine ⟨fun e h => ?_, fun es h n => parse_firstLines_of_ok h n⟩
  obtain ⟨before, after, hlines, hnumber, hskip, ⟨p, hread⟩, hfail⟩ := exists_of_parse_invalid h
  have hcount : e.line - 1 = before.length := by omega
  have htake : (before ++ e.source :: after).take e.line = before ++ [e.source] := by
    rw [hnumber, List.take_length_add_append]
    rfl
  refine ⟨by omega, ?_, ?_, ?_, ⟨p.1, ?_⟩, fun text' hprefix => ?_⟩
  · rw [hlines, List.length_append, List.length_cons]
    omega
  · rw [hlines, hcount, List.getElem?_append_right (Nat.le_refl _), Nat.sub_self]
    rfl
  · intro hremark
    rw [(isSkipped_iff e.source).2 hremark] at hskip
    cases hskip
  · rw [parse_eq, textRows_firstLines, hlines, hcount, List.take_left, hread]
    rfl
  · rw [hlines, htake] at hprefix
    exact parse_of_prefix hprefix hfail

/-- A file in a directory, a comment, and a line that is further in than the file. -/
def tooDeepText : Text := "a/\n  b\n# c\n   d\ne"

theorem parse_firstLines_tooDeep :
    parse true tooDeepText = .error (.invalid ⟨4, .indentBelowFile, "   d"⟩) ∧
      (∃ es, parse true (firstLines 3 tooDeepText) = .ok es) ∧
      parse true "a/\n  b\n# c\n   d\n\t(" = .error (.invalid ⟨4, .indentBelowFile, "   d"⟩) ∧
      parse true (firstLines 2 "a/\n  b\n# c\nd") =
        .ok [{ name := "a", level := 0, line := 1, isDirectory := true }, { name := "b", level := 1, line := 2 }] := by
  have hfail : parse true tooDeepText = .error (.invalid ⟨4, .indentBelowFile, "   d"⟩) := by cbv
  have hread : parse true "a/\n  b\n# c\nd" =
      .ok [{ name := "a", level := 0, line := 1, isDirectory := true }, { name := "b", level := 1, line := 2 },
        { name := "d", level := 0, line := 4 }] := by cbv
  have hbegin : (Text.splitOn '\n' tooDeepText).take 4 <+: Text.splitOn '\n' "a/\n  b\n# c\n   d\n\t(" := by
    decide
  obtain ⟨hlocated, -⟩ := parse_firstLines true tooDeepText
  obtain ⟨-, hfirst⟩ := parse_firstLines true "a/\n  b\n# c\nd"
  obtain ⟨-, -, -, -, hbefore, hsame⟩ := hlocated _ hfail
  exact ⟨hfail, hbefore, hsame _ hbegin, hfirst _ hread 2⟩

end Layout

end TreePlan
