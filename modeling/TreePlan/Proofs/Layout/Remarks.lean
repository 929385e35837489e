import Mathlib
import TreePlan.Proofs.Layout.Rows
import TreePlan.Proofs.Layout.WellFormed

/-! Lines that say nothing: blank ones and comments. Wherever they are put into a layout, and however they are
indented, its entries are what they were, only further down. -/

namespace TreePlan

/-- The same entry, on another line. -/
def Entry.relined (g : Nat → Nat) (e : Entry) : Entry := { e with line := g e.line }

/-- The same failure, on another line. -/
def ParseError.relined (g : Nat → Nat) : ParseError → ParseError
  | .invalid e => .invalid { e with line := g e.line }
  | .oversized fault => .oversized fault

theorem ParseError.relined_ofLine (g : Nat → Nat) (line : Nat) (source : Text) (fault : LineFault) :
    (ofLine line source fault).relined g = ofLine (g line) source fault := by
  unfold ofLine
  cases fault.oversized? <;> rfl

namespace Layout

/-- A line of blanks, or one whose first character that is not blank is a hash sign. -/
def IsRemark (line : Text) : Prop :=
  (∀ c ∈ line, c.isBlank = true) ∨
    ∃ blanks rest, line = blanks ++ CodePoint.ofChar '#' :: rest ∧ ∀ c ∈ blanks, c.isBlank = true

/-- Lines, of which the first has the number `n`, with more put in before each of them and behind the last. -/
def interleave (more : Nat → List Text) : Nat → List Text → List Text
  | n, [] => more n
  | n, line :: lines => more n ++ line :: interleave more (n + 1) lines

/-- A text with lines put in: those of `more n` before line `n`, or behind the last. -/
def insertLines (more : Nat → List Text) (text : Text) : Text :=
  Text.unlines "\n" (interleave more 1 (Text.splitOn '\n' text))

/-- Where a line comes to stand below all that has been put in before it. -/
def lowered (more : Nat → List Text) (n : Nat) : Nat := n + ((List.range' 1 n).flatMap more).length

variable {strict : Bool} {ctx : Context} {source : Text} {more : Nat → List Text} {lines : List Text}

theorem rows_eq_nil (h : ∀ line ∈ lines, isSkipped line = true) (first : Nat) : rows first lines = [] := by
  refine List.filter_eq_nil_iff.2 fun p hp => ?_
  simp [h p.1 (List.fst_mem_of_mem_zipIdx hp)]

theorem lowered_succ (more : Nat → List Text) (n : Nat) :
    lowered more (n + 1) = lowered more n + 1 + (more (n + 1)).length := by
  unfold lowered
  rw [List.range'_1_concat, List.flatMap_append, List.length_append, List.flatMap_singleton, Nat.add_comm 1 n]
  omega

/-- Remarks make no rows, but they count. -/
theorem rows_interleave (h : ∀ n, ∀ line ∈ more n, isSkipped line = true) (n : Nat) (lines : List Text) :
    rows (lowered more n + 1) (interleave more (n + 1) lines) =
      (rows (n + 1) lines).map (Prod.map id (lowered more)) := by
  induction lines generalizing n with
  | nil => rw [interleave, rows_eq_nil (h (n + 1))]; rfl
  | cons source lines ih =>
    have hnext := lowered_succ more n
    rw [interleave, rows_append, rows_eq_nil (h (n + 1)), List.nil_append, ← hnext, rows_cons, rows_cons, ih]
    split
    · rfl
    · rfl

theorem textRows_insertLines (h : ∀ n, ∀ line ∈ more n, CodePoint.ofChar '\n' ∉ line ∧ isSkipped line = true)
    (text : Text) : textRows (insertLines more text) = (textRows text).map (Prod.map id (lowered more)) := by
  have hnewline (n : Nat) (lines : List Text) (hl : ∀ line ∈ lines, CodePoint.ofChar '\n' ∉ line) :
      ∀ line ∈ interleave more n lines, CodePoint.ofChar '\n' ∉ line := by
    induction lines generalizing n with
    | nil => exact fun line hm => (h n line hm).1
    | cons l lines ih =>
      obtain ⟨hfirst, hrest⟩ := List.forall_mem_cons.1 hl
      refine List.forall_mem_append.2 ⟨fun line hm => (h n line hm).1, List.forall_mem_cons.2 ⟨hfirst, ?_⟩⟩
      exact ih (n + 1) hrest
  have hsplit : Text.splitOn '\n' (insertLines more text) = interleave more 1 (Text.splitOn '\n' text) := by
    refine Text.splitOn_unlines ?_ (hnewline 1 _ fun line hm => Text.notMem_of_mem_splitOn hm)
    obtain ⟨line, lines, hlines⟩ := List.exists_cons_of_ne_nil (Text.splitOn_ne_nil '\n' text)
    simp [hlines, interleave]
  rw [textRows, hsplit]
  exact rows_interleave (fun n line hm => (h n line hm).2) 0 _

/-- On another line a row gives the same entry, or fails as it failed. -/
theorem readLine_relined (g : Nat → Nat) (line : Nat) :
    readLine strict (g line) ctx source =
      (readLine strict line ctx source).map (Prod.map (Entry.relined g) id) := by
  rw [readLine_eq, readLine_eq]
  cases ctx.open source.leadingBlanks with
  | error fault => rfl
  | ok i =>
    show (tokens strict source).map _ = ((tokens strict source).map _).map _
    cases tokens strict source <;> rfl

theorem readRows_relined (g : Nat → Nat) (ps : List (Text × Nat)) :
    readRows strict ctx (ps.map (Prod.map id g)) =
      ((readRows strict ctx ps).map (Prod.map (List.map (Entry.relined g)) id)).mapError (ParseError.relined g) := by
  induction ps generalizing ctx with
  | nil => rfl
  | cons p ps ih =>
    obtain ⟨source, line⟩ := p
    rw [List.map_cons, Prod.map_apply, id, readRows, readRows, readLine_relined]
    cases readLine strict line ctx source with
    | error fault => exact congrArg Except.error (ParseError.relined_ofLine ..).symm
    | ok q =>
      show (readRows strict q.2 (ps.map (Prod.map id g))).map _ =
        (((readRows strict q.2 ps).map _).map _).mapError _
      rw [ih]
      cases readRows strict q.2 ps <;> rfl

/-- Blank lines and comments put in before any of the lines, and behind the last, leave everything about the
entries as it was but the lines they are on. A layout that fails does so at the same line, wherever that has come
to stand, and with the same fault. -/
theorem parse_insertLines (strict : Bool) (text : Text) (more : Nat → List Text)
    (h : ∀ n, ∀ line ∈ more n, CodePoint.ofChar '\n' ∉ line ∧ IsRemark line) :
    parse strict (insertLines more text) =
      ((parse strict text).map fun es => es.map (Entry.relined (lowered more))).mapError
        (ParseError.relined (lowered more)) := by
  have hskip : ∀ n, ∀ line ∈ more n, CodePoint.ofChar '\n' ∉ line ∧ isSkipped line = true :=
    fun n line hm => ⟨(h n line hm).1, (isSkipped_iff line).2 (h n line hm).2⟩
  rw [parse_eq, parse_eq, textRows_insertLines hskip, readRows_relined]
  cases readRows strict {} (textRows text) <;> rfl

/-- A comment at the top, one behind a tab between a directory and its file, a line of blanks and one of a tab at
the end. -/
def remarks : Nat → List Text
  | 1 => ["# plan"]
  | 2 => ["\t# in a", ""]
  | 4 => ["      ", "\t"]
  | _ => []

theorem parse_insertLines_remarks :
    (∀ n, ∀ line ∈ remarks n, CodePoint.ofChar '\n' ∉ line ∧ IsRemark line) ∧
      parse true (insertLines remarks "a/\n  b\nc") =
        .ok [{ name := "a", level := 0, line := 2, isDirectory := true }, { name := "b", level := 1, line := 5 },
          { name := "c", level := 0, line := 6 }] ∧
      parse true (insertLines remarks "a\n  b\nc") = .error (.invalid ⟨5, .indentBelowFile, "  b"⟩) := by
  have hremarks : ∀ n, ∀ line ∈ remarks n, CodePoint.ofChar '\n' ∉ line ∧ IsRemark line := by
    have hall (lines : List Text) (hl : ∀ line ∈ lines, CodePoint.ofChar '\n' ∉ line ∧ isSkipped line = true) :
        ∀ line ∈ lines, CodePoint.ofChar '\n' ∉ line ∧ IsRemark line :=
      fun line hm => ⟨(hl line hm).1, (isSkipped_iff line).1 (hl line hm).2⟩
    intro n
    refine hall _ ?_
    unfold remarks
    split <;> decide
  have hparse : parse true "a/\n  b\nc" =
      .ok [{ name := "a", level := 0, line := 1, isDirectory := true }, { name := "b", level := 1, line := 2 },
        { name := "c", level := 0, line := 3 }] := by cbv
  have hfails : parse true "a\n  b\nc" = .error (.invalid ⟨2, .indentBelowFile, "  b"⟩) := by cbv
  refine ⟨hremarks, ?_, ?_⟩
  · rw [parse_insertLines true _ _ hremarks, hparse]
    rfl
  · rw [parse_insertLines true _ _ hremarks, hfails]
    rfl

end Layout

end TreePlan
