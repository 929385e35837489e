import Mathlib
import TreePlan.Proofs.Layout.Rows
import TreePlan.Proofs.Layout.WellFormed
import TreePlan.Proofs.Text.Order

/-! Reading a layout strictly. What is refused then and not otherwise is the first entry with unknown keys in its
extras, so a strict reading that succeeds comes to the same, and one that fails does not fail later. -/

namespace TreePlan

namespace Layout

/-- Takes an entry if it has no unknown keys. -/
def refuseUnknown (e : Entry) : Except LineFault Entry :=
  if e.extras = [] then .ok e else .error (.unknownExtras e.extras.keys)

variable {ctx ctx' : Context} {line : Nat} {source text : Text} {e : Entry} {es : List Entry}
  {xs : List (Text × Nat)} {f : ParseError}

/-- Strictness is a check of its own, behind all others of a line. -/
theorem readSpec_strict (level line : Nat) (s : Text) :
    readSpec true level line s = readSpec false level line s >>= refuseUnknown := by
  unfold readSpec
  simp only [bind_assoc]
  refine bind_congr fun name => bind_congr fun permission => bind_congr fun target => bind_congr fun extras =>
    bind_congr fun content => ?_
  rw [Bool.false_and, if_neg Bool.false_ne_true, Bool.true_and, pure_bind]
  cases extras.erase "content" with
  | nil => rfl
  | cons field fields => rfl

theorem readLine_strict (line : Nat) (ctx : Context) (source : Text) :
    readLine true line ctx source =
      readLine false line ctx source >>= fun p => (refuseUnknown p.1).map fun e => (e, p.2) := by
  unfold readLine
  simp only [bind_assoc, pure_bind]
  refine bind_congr fun indents => ?_
  rw [readSpec_strict, bind_assoc]
  refine bind_congr fun e => ?_
  unfold refuseUnknown
  split
  · rfl
  · rfl

/-- Lines that can be read are read strictly as well, up to the first entry with unknown keys. -/
theorem readRows_strict (h : readRows false ctx xs = .ok (es, ctx')) :
    (∀ e ∈ es, e.extras = []) ∧ readRows true ctx xs = .ok (es, ctx') ∨
      ∃ before e after source, es = before ++ e :: after ∧ (∀ b ∈ before, b.extras = []) ∧ e.extras ≠ [] ∧
        (source, e.line) ∈ xs ∧
        readRows true ctx xs = .error (.invalid ⟨e.line, .unknownExtras e.extras.keys, source⟩) := by
  induction xs generalizing ctx es with
  | nil =>
    cases h
    exact .inl ⟨by simp, rfl⟩
  | cons x xs ih =>
    obtain ⟨source, line⟩ := x
    obtain ⟨e, ctx₁, rest, hline, hrest, rfl⟩ := readRows_cons_eq_ok_iff.1 h
    have hstrict := readLine_strict line ctx source
    rw [hline] at hstrict
    by_cases hplain : e.extras = []
    · have hfirst : readLine true line ctx source = .ok (e, ctx₁) := by
        rw [hstrict]
        show (refuseUnknown e).map _ = _
        rw [refuseUnknown, if_pos hplain]
        rfl
      rcases ih hrest with ⟨hall, hread⟩ | ⟨before, d, after, s, rfl, hbefore, hd, hmem, hread⟩
      · have hrows := readRows_cons_eq_ok_iff.2 ⟨e, ctx₁, rest, hfirst, hread, rfl⟩
        exact .inl ⟨List.forall_mem_cons.2 ⟨hplain, hall⟩, hrows⟩
      · refine .inr ⟨e :: before, d, after, s, rfl, List.forall_mem_cons.2 ⟨hplain, hbefore⟩, hd,
          List.mem_cons_of_mem _ hmem, ?_⟩
        rw [readRows, hfirst]
        dsimp only
        rw [hread]
        rfl
    · have hfirst : readLine true line ctx source = .error (.unknownExtras e.extras.keys) := by
        rw [hstrict]
        show (refuseUnknown e).map _ = _
        rw [refuseUnknown, if_neg hplain]
        rfl
      obtain ⟨i, t, -, -, rfl, -⟩ := readLine_eq_ok_iff.1 hline
      refine .inr ⟨[], _, rest, source, rfl, by simp, hplain, List.mem_cons_self, ?_⟩
      rw [readRows, hfirst]
      rfl

/-- Where reading fails, a strict reading fails too, there or at a line before. -/
theorem readRows_strict_error (h : readRows false ctx xs = .error f) :
    ∃ before source line after fault, xs = before ++ (source, line) :: after ∧ f = .ofLine line source fault ∧
      (readRows true ctx xs = .error f ∨
        ∃ e, (e.source, e.line) ∈ before ∧ readRows true ctx xs = .error (.invalid e)) := by
  obtain ⟨before, source, line, after, es, ctx', fault, rfl, hread, hfault, rfl⟩ := exists_of_readRows_error h
  refine ⟨before, source, line, after, fault, rfl, rfl, ?_⟩
  rcases readRows_strict hread with ⟨-, hstrict⟩ | ⟨_, e, _, s, -, -, -, hmem, hstrict⟩
  · have hlast : readLine true line ctx' source = .error fault := by
      rw [readLine_strict, hfault]
      rfl
    have hrow := readRows_concat_error hstrict hlast
    rw [List.append_cons]
    exact .inl (readRows_append_error hrow after)
  · exact .inr ⟨_, hmem, readRows_append_error hstrict _⟩

theorem parse_true_eq_ok_iff :
    parse true text = .ok es ↔ parse false text = .ok es ∧ ∀ e ∈ es, e.extras = [] := by
  rw [parse_eq, parse_eq]
  cases hread : readRows false {} (textRows text) with
  | error f =>
    obtain ⟨_, _, _, _, _, -, -, hstrict | ⟨e, -, hstrict⟩⟩ := readRows_strict_error hread
    · rw [hstrict]
      exact ⟨nofun, fun h => nomatch h.1⟩
    · rw [hstrict]
      exact ⟨nofun, fun h => nomatch h.1⟩
  | ok p =>
    rcases readRows_strict hread with ⟨hplain, hstrict⟩ | ⟨before, e, after, source, hes, -, he, -, hstrict⟩
    · rw [hstrict]
      refine ⟨fun h => ?_, fun h => h.1⟩
      cases h
      exact ⟨rfl, hplain⟩
    · rw [hstrict]
      refine ⟨nofun, fun ⟨h, hplain⟩ => ?_⟩
      cases h
      exact absurd (hplain e (by simp [hes])) he

/-- The first entry with unknown keys is refused. -/
theorem exists_of_parse_refused (h : parse false text = .ok es) (hf : parse true text = .error f) :
    ∃ before e after source, es = before ++ e :: after ∧ (∀ b ∈ before, b.extras = []) ∧ e.extras ≠ [] ∧
      f = .invalid ⟨e.line, .unknownExtras e.extras.keys, source⟩ := by
  rw [parse_eq] at h hf
  obtain ⟨p, hread, rfl⟩ := map_eq_ok_iff.1 h
  rcases readRows_strict hread with ⟨-, hstrict⟩ | ⟨before, e, after, source, hes, hbefore, he, -, hstrict⟩
  · rw [hstrict] at hf
    cases hf
  · rw [hstrict] at hf
    cases hf
    exact ⟨before, e, after, source, hes, hbefore, he, rfl⟩

theorem parse_true_line_le {e : SyntaxError} (h : parse false text = .error (.invalid e)) :
    ∃ e', parse true text = .error (.invalid e') ∧ e'.line ≤ e.line := by
  rw [parse_eq] at h
  rw [parse_eq]
  obtain ⟨before, source, line, after, fault, hrows, hf, hstrict | ⟨e', hmem, hstrict⟩⟩ :=
    readRows_strict_error (map_eq_error_iff.1 h)
  · rw [hstrict]
    exact ⟨e, rfl, Nat.le_refl _⟩
  · obtain rfl := ParseError.eq_of_ofLine hf.symm
    obtain ⟨earlier, -, -, hline, -, rfl, -⟩ := exists_of_rows_eq hrows
    have hlt : e'.line < 1 + earlier.length := (mem_rows hmem).2
    rw [hstrict]
    exact ⟨e', rfl, hline ▸ hlt.le⟩

/-- A strict reading comes to the entries of a layout just when none of them has unknown keys. Otherwise it fails
at the first that has, and names its keys in ascending order. A layout that fails anyway does so no later when it
is read strictly. -/
theorem parse_strict (text : Text) :
    (∀ es, parse true text = .ok es ↔ parse false text = .ok es ∧ ∀ e ∈ es, e.extras = []) ∧
    (∀ es f, parse false text = .ok es → parse true text = .error f →
      ∃ before e after fault source keys, es = before ++ e :: after ∧ (∀ b ∈ before, b.extras = []) ∧
        e.extras ≠ [] ∧ f = .invalid ⟨e.line, fault, source⟩ ∧
        fault.reason = "Unknown extras keys: " ++ Text.unlines ", " keys ∧
        keys.Perm e.extras.keys ∧ keys.Pairwise (· < ·)) ∧
    ∀ e, parse false text = .error (.invalid e) →
      ∃ e', parse true text = .error (.invalid e') ∧ e'.line ≤ e.line := by
  refine ⟨fun es => parse_true_eq_ok_iff, fun es f h hf => ?_, fun e h => parse_true_line_le h⟩
  obtain ⟨before, e, after, source, rfl, hbefore, he, rfl⟩ := exists_of_parse_refused h hf
  obtain ⟨-, -, -, hwell⟩ := parse_wellFormed h
  have hnodup : e.extras.keys.Nodup := (hwell e (by simp)).1.keys
  have hperm : (Text.sorted e.extras.keys).Perm e.extras.keys := List.mergeSort_perm ..
  exact ⟨before, e, after, _, source, _, rfl, hbefore, he, rfl, rfl, hperm, Text.sorted_lt hnodup⟩

/-- A file with a content, one with two more keys, and one with another. -/
def keyedText : Text := "a \"content\":\"x\"\nb \"z\":1,\"content\":\"y\",\"B\":2\nc \"k\":0"

def keyedEntries : List Entry :=
  [{ name := "a", level := 0, line := 1, content := some "x" },
    { name := "b", level := 0, line := 2, content := some "y", extras := [("z", .int 1), ("B", .int 2)] },
    { name := "c", level := 0, line := 3, extras := [("k", .int 0)] }]

theorem parse_strict_keyed :
    parse false keyedText = .ok keyedEntries ∧
      (∃ fault source keys, parse true keyedText = .error (.invalid ⟨2, fault, source⟩) ∧
        fault.reason = "Unknown extras keys: B, z" ∧
        fault.reason = "Unknown extras keys: " ++ Text.unlines ", " keys ∧ keys.Pairwise (· < ·)) ∧
      parse false "b \"z\":1\n\tc" = .error (.invalid ⟨2, .tabInIndent, "\tc"⟩) ∧
      ∃ e, parse true "b \"z\":1\n\tc" = .error (.invalid e) ∧ e.line ≤ 2 := by
  have hlenient : parse false keyedText = .ok keyedEntries := by cbv
  have hstrict : parse true keyedText = .error (.invalid ⟨2, .unknownExtras ["z", "B"],
      "b \"z\":1,\"content\":\"y\",\"B\":2"⟩) := by cbv
  have htext : (LineFault.unknownExtras ["z", "B"]).reason = "Unknown extras keys: B, z" := by cbv
  have htab : parse false "b \"z\":1\n\tc" = .error (.invalid ⟨2, .tabInIndent, "\tc"⟩) := by cbv
  obtain ⟨-, hrefused, -⟩ := parse_strict keyedText
  obtain ⟨-, -, hearlier⟩ := parse_strict "b \"z\":1\n\tc"
  obtain ⟨_, _, _, _, _, keys, -, -, -, hf, hreason, -, hkeys⟩ := hrefused _ _ hlenient hstrict
  obtain ⟨-, hfault, -⟩ := SyntaxError.mk.inj (ParseError.invalid.inj hf)
  rw [← hfault] at hreason
  exact ⟨hlenient, ⟨_, _, keys, hstrict, htext, hreason, hkeys⟩, htab, hearlier _ htab⟩

end Layout

end TreePlan
