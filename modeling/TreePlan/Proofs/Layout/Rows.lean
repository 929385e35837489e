import TreePlan.Layout.Parse
import TreePlan.Proofs.Except
import TreePlan.Proofs.Text.Lines

/-! The lines that make entries, read one after the other: what such a line does to the widths that are open,
and what a run over several of them comes to. What the tokens of a line say depends neither on its number nor on
what is open. -/

namespace TreePlan

/-- The same entry at another level and on another line. -/
def Entry.placed (e : Entry) (level : Int) (line : Nat) : Entry := { e with level := level, line := line }

/-- A failure that is blamed on a line is blamed on the one that has it. -/
theorem ParseError.eq_of_ofLine {line : Nat} {source : Text} {fault : LineFault} {e : SyntaxError}
    (h : ofLine line source fault = .invalid e) : e = ⟨line, fault, source⟩ := by
  unfold ofLine at h
  split at h
  · cases h
  · exact (ParseError.invalid.inj h).symm

namespace Layout

/-- What the tokens of a line say by themselves. -/
def tokens (strict : Bool) (source : Text) : Except LineFault Entry := readSpec strict 0 0 source.dropBlanks

def width (source : Text) : Nat := source.leadingBlanks.length

/-- All that a line without a tab in its indentation can do: open the first width or a deeper one, stay at the
deepest, return to one that is open, or fail in one of two ways. -/
inductive Turn (ctx : Context) (w : Int) : Except LineFault Indents → Prop where
  | first : ctx.indents.widths = [] → Turn ctx w (.ok ⟨[w]⟩)
  | deeper {top : Int} {rest : List Int} : ctx.indents.widths = top :: rest → top < w →
      ctx.belowDirectory = true → Turn ctx w (.ok ⟨w :: top :: rest⟩)
  | unsupported {top : Int} {rest : List Int} : ctx.indents.widths = top :: rest → top < w →
      ctx.belowDirectory = false → Turn ctx w (.error .indentBelowFile)
  | level {rest : List Int} : ctx.indents.widths = w :: rest → Turn ctx w (.ok ⟨w :: rest⟩)
  | back {top : Int} {closed rest : List Int} : ctx.indents.widths = top :: (closed ++ w :: rest) → w < top →
      w ∉ closed → Turn ctx w (.ok ⟨w :: rest⟩)
  | unknown {top : Int} {rest : List Int} : ctx.indents.widths = top :: rest → w < top → w ∉ rest →
      Turn ctx w (.error .unknownIndent)

/-- The lines that make entries, each with its number. -/
def rows (first : Nat) (lines : List Text) : List (Text × Nat) :=
  (lines.zipIdx first).filter fun p => !isSkipped p.1

def textRows (text : Text) : List (Text × Nat) := rows 1 (Text.splitOn '\n' text)

/-- Reads lines that make entries, and what they mean for the next one. -/
def readRows (strict : Bool) : Context → List (Text × Nat) → Except ParseError (List Entry × Context)
  | ctx, [] => .ok ([], ctx)
  | ctx, (source, line) :: rest =>
    match readLine strict line ctx source with
    | .error fault => .error (.ofLine line source fault)
    | .ok (entry, ctx) => (readRows strict ctx rest).map fun p => (entry :: p.1, p.2)

variable {strict : Bool} {ctx ctx' ctx'' : Context} {line : Nat} {source indent : Text} {e : Entry}
  {es : List Entry} {xs ys : List (Text × Nat)} {w : Int} {f : ParseError}

/-- Of a line only its entry knows where it stands. -/
theorem readSpec_eq_placed (strict : Bool) (level line : Nat) (s : Text) :
    readSpec strict level line s = (readSpec strict 0 0 s).map fun e => e.placed level line := by
  simp only [readSpec, map_bind_eq]
  refine bind_congr fun name => bind_congr fun permission => bind_congr fun target => bind_congr fun extras =>
    bind_congr fun content => ?_
  split
  · rfl
  · rfl

theorem readLine_eq (strict : Bool) (line : Nat) (ctx : Context) (source : Text) :
    readLine strict line ctx source = ctx.open source.leadingBlanks >>= fun indents =>
      (tokens strict source).map fun e => (e.placed indents.level line, ⟨indents, e.isDirectory⟩) := by
  unfold readLine
  refine bind_congr fun indents => ?_
  rw [readSpec_eq_placed]
  show _ = (tokens strict source).map _
  unfold tokens
  cases readSpec strict 0 0 source.dropBlanks <;> rfl

theorem all_ne_of_notMem {ws : List Int} (h : w ∉ ws) : ∀ x ∈ ws, decide (x ≠ w) = true :=
  fun x hx => by simpa using ne_of_mem_of_not_mem hx h

theorem returnTo?_eq_none {i : Indents} (h : w ∉ i.widths) : i.returnTo? w = none := by
  rw [Indents.returnTo?, List.dropWhile_eq_nil_iff.2 (all_ne_of_notMem h)]

/-- The widths that were opened after the last one of a size are closed. -/
theorem returnTo?_append {closed rest : List Int} (h : w ∉ closed) :
    Indents.returnTo? ⟨closed ++ w :: rest⟩ w = some ⟨w :: rest⟩ := by
  have hdrop : (closed ++ w :: rest).dropWhile (fun x => decide (x ≠ w)) = w :: rest := by
    rw [List.dropWhile_append_of_pos (all_ne_of_notMem h), List.dropWhile_cons_of_neg (by simp)]
  rw [Indents.returnTo?, hdrop]

theorem Turn.open_eq {r : Except LineFault Indents} (h : Turn ctx indent.length r)
    (hi : CodePoint.ofChar '\t' ∉ indent) : ctx.open indent = r := by
  have htab : indent.contains (CodePoint.ofChar '\t') = false := by
    rwa [List.contains_eq_mem, decide_eq_false_iff_not]
  obtain ⟨⟨widths⟩, below⟩ := ctx
  unfold Context.open Indents.current? Indents.push
  rw [htab, if_neg (by decide)]
  -- each case decides the comparisons with the deepest width, in their order
  cases h with
  | first hw =>
    obtain rfl : widths = [] := hw
    rfl
  | deeper hw hlt hd =>
    obtain rfl : widths = _ := hw
    exact (if_pos hlt).trans (if_pos hd)
  | unsupported hw hlt hd =>
    obtain rfl : widths = _ := hw
    exact (if_pos hlt).trans (if_neg (by simpa using hd))
  | level hw =>
    obtain rfl : widths = _ := hw
    exact (if_neg (Int.lt_irrefl _)).trans (if_neg (Int.lt_irrefl _))
  | @back top closed rest hw hlt hclosed =>
    obtain rfl : widths = _ := hw
    have hnew : (indent.length : Int) ∉ top :: closed := by simp [hclosed, Int.ne_of_lt hlt]
    refine (if_neg (by omega)).trans ((if_pos hlt).trans ?_)
    rw [← List.cons_append, returnTo?_append hnew]
  | unknown hw hlt hrest =>
    obtain rfl : widths = _ := hw
    refine (if_neg (by omega)).trans ((if_pos hlt).trans ?_)
    rw [returnTo?_eq_none (by simp [hrest, Int.ne_of_lt hlt])]

/-- Every width does one of these things. -/
theorem exists_turn (ctx : Context) (w : Int) : ∃ r, Turn ctx w r := by
  cases hwidths : ctx.indents.widths with
  | nil => exact ⟨_, .first hwidths⟩
  | cons top rest =>
    rcases Int.lt_trichotomy w top with hlt | rfl | hlt
    · by_cases hmem : w ∈ rest
      · obtain ⟨closed, kept, rfl, hclosed⟩ := List.eq_append_cons_of_mem hmem
        exact ⟨_, .back hwidths hlt hclosed⟩
      · exact ⟨_, .unknown hwidths hlt hmem⟩
    · exact ⟨_, .level hwidths⟩
    · cases hd : ctx.belowDirectory with
      | true => exact ⟨_, .deeper hwidths hlt hd⟩
      | false => exact ⟨_, .unsupported hwidths hlt hd⟩

theorem turn_open (h : CodePoint.ofChar '\t' ∉ indent) : Turn ctx indent.length (ctx.open indent) := by
  obtain ⟨r, hr⟩ := exists_turn ctx indent.length
  rwa [hr.open_eq h]

section Open

variable {i : Indents}

/-- A line whose indentation is in order has no tab in it. -/
theorem turn_of_open (h : ctx.open indent = .ok i) :
    CodePoint.ofChar '\t' ∉ indent ∧ Turn ctx indent.length (.ok i) := by
  have htab : CodePoint.ofChar '\t' ∉ indent := by
    intro hm
    rw [Context.open, if_pos (List.contains_iff_mem.2 hm)] at h
    cases h
  exact ⟨htab, h ▸ turn_open htab⟩

theorem readLine_eq_ok_iff : readLine strict line ctx source = .ok (e, ctx') ↔
    ∃ i t, ctx.open source.leadingBlanks = .ok i ∧ tokens strict source = .ok t ∧
      e = t.placed i.level line ∧ ctx' = ⟨i, t.isDirectory⟩ := by
  rw [readLine_eq, bind_eq_ok_iff]
  constructor
  · rintro ⟨i, hi, h⟩
    obtain ⟨t, ht, he⟩ := map_eq_ok_iff.1 h
    cases he
    exact ⟨i, t, hi, ht, rfl, rfl⟩
  · rintro ⟨i, t, hi, ht, rfl, rfl⟩
    exact ⟨i, hi, map_eq_ok_iff.2 ⟨t, ht, rfl⟩⟩

theorem turn_of_readLine (h : readLine strict line ctx source = .ok (e, ctx')) :
    Turn ctx (width source) (.ok ctx'.indents) := by
  obtain ⟨i, t, hopen, -, -, rfl⟩ := readLine_eq_ok_iff.1 h
  exact (turn_of_open hopen).2

/-- A line that does not fail is the deepest. -/
theorem Turn.head (h : Turn ctx w (.ok i)) : ∃ rest, i.widths = w :: rest := by
  cases h with
  | first => exact ⟨_, rfl⟩
  | deeper => exact ⟨_, rfl⟩
  | level => exact ⟨_, rfl⟩
  | back => exact ⟨_, rfl⟩

theorem filter_lt_append_cons (closed rest : List Int) (h : (closed ++ w :: rest).Pairwise (· > ·)) :
    (closed ++ w :: rest).filter (· < w) = rest := by
  obtain ⟨-, hrest, hclosed⟩ := List.pairwise_append.1 h
  have hdrop : closed.filter (· < w) = [] :=
    List.filter_eq_nil_iff.2 fun x hx => by simpa using Int.le_of_lt (hclosed x hx w (by simp))
  have hkeep : rest.filter (· < w) = rest :=
    List.filter_eq_self.2 fun x hx => by simpa using (List.pairwise_cons.1 hrest).1 x hx
  rw [List.filter_append, hdrop, List.filter_cons_of_neg (by simp), hkeep, List.nil_append]

/-- A line that does not fail leaves open what is narrower. -/
theorem Turn.widths_eq (h : Turn ctx w (.ok i)) (hs : ctx.indents.widths.Pairwise (· > ·)) :
    i.widths = w :: ctx.indents.widths.filter (· < w) := by
  -- what is closed on the way back lies before the width that is returned to, and is wider
  cases h with
  | first hw => rw [hw, List.filter_nil]
  | @deeper top rest hw hlt hd =>
    rw [hw] at hs ⊢
    have hall : ∀ x ∈ top :: rest, decide (x < w) = true :=
      List.forall_mem_cons.2 ⟨by simpa using hlt,
        fun x hx => by simpa using Int.lt_trans ((List.pairwise_cons.1 hs).1 x hx) hlt⟩
    rw [List.filter_eq_self.2 hall]
  | @level rest hw =>
    rw [hw] at hs ⊢
    exact congrArg (w :: ·) (filter_lt_append_cons [] rest hs).symm
  | @back top closed rest hw hlt hclosed =>
    rw [hw] at hs ⊢
    exact congrArg (w :: ·) (filter_lt_append_cons (top :: closed) rest hs).symm

theorem Turn.sorted (h : Turn ctx w (.ok i)) (hs : ctx.indents.widths.Pairwise (· > ·)) :
    i.widths.Pairwise (· > ·) := by
  rw [h.widths_eq hs]
  exact List.pairwise_cons.2 ⟨fun x hx => by simpa using (List.mem_filter.1 hx).2, hs.filter _⟩

end Open

section Rows

theorem rows_cons (first : Nat) (source : Text) (lines : List Text) : rows first (source :: lines) =
    if isSkipped source then rows (first + 1) lines else (source, first) :: rows (first + 1) lines := by
  rw [rows, List.zipIdx_cons, List.filter_cons]
  cases isSkipped source <;> rfl

theorem mem_rows {first : Nat} {lines : List Text} {p : Text × Nat} (h : p ∈ rows first lines) :
    first ≤ p.2 ∧ p.2 < first + lines.length := by
  have hp : p ∈ lines.zipIdx first := (List.mem_filter.1 h).1
  exact ⟨List.le_snd_of_mem_zipIdx hp, List.snd_lt_add_of_mem_zipIdx hp⟩

/-- The numbers and the rest of what a layout makes of its lines are those of its rows. -/
theorem readLines_eq (strict : Bool) (line : Nat) (ctx : Context) (lines : List Text) :
    readLines strict line ctx lines = (readRows strict ctx (rows line lines)).map Prod.fst := by
  induction lines generalizing line ctx with
  | nil => rfl
  | cons source lines ih =>
    rw [readLines, rows_cons]
    split
    · exact ih (line + 1) ctx
    · rw [readRows]
      cases readLine strict line ctx source with
      | error fault => rfl
      | ok p =>
        dsimp only
        rw [ih (line + 1) p.2]
        cases readRows strict p.2 (rows (line + 1) lines) <;> rfl

theorem parse_eq (strict : Bool) (text : Text) :
    parse strict text = (readRows strict {} (textRows text)).map Prod.fst := readLines_eq strict 1 {} _

theorem rows_append (first : Nat) (xs ys : List Text) :
    rows first (xs ++ ys) = rows first xs ++ rows (first + xs.length) ys := by
  rw [rows, List.zipIdx_append, List.filter_append]
  rfl

theorem rows_add (first n : Nat) (lines : List Text) :
    rows (first + n) lines = (rows first lines).map (Prod.map id (· + n)) := by
  unfold rows
  rw [Nat.add_comm, ← List.map_snd_add_zipIdx_eq_zipIdx, List.filter_map]
  rfl

/-- The rows of a text come before those of a text below it. -/
theorem textRows_append (s t : Text) : textRows (s ++ CodePoint.ofChar '\n' :: t) =
    textRows s ++ (textRows t).map (Prod.map id (· + (Text.splitOn '\n' s).length)) := by
  unfold textRows
  rw [Text.splitOn_append_sep, rows_append, rows_add]

theorem readRows_append :
    readRows strict ctx (xs ++ ys) = readRows strict ctx xs >>= fun p =>
      (readRows strict p.2 ys).map fun q => (p.1 ++ q.1, q.2) := by
  induction xs generalizing ctx with
  | nil =>
    rw [List.nil_append, readRows]
    show _ = (readRows strict ctx ys).map id
    cases readRows strict ctx ys <;> rfl
  | cons x xs ih =>
    obtain ⟨source, line⟩ := x
    rw [List.cons_append, readRows, readRows]
    cases readLine strict line ctx source with
    | error fault => rfl
    | ok p =>
      dsimp only
      rw [ih]
      cases readRows strict p.2 xs with
      | error f => rfl
      | ok q =>
        show ((readRows strict q.2 ys).map _).map _ = (readRows strict q.2 ys).map _
        cases readRows strict q.2 ys <;> rfl

theorem readRows_cons_eq_ok_iff : readRows strict ctx ((source, line) :: xs) = .ok (es, ctx'') ↔
    ∃ e ctx' rest, readLine strict line ctx source = .ok (e, ctx') ∧
      readRows strict ctx' xs = .ok (rest, ctx'') ∧ es = e :: rest := by
  rw [readRows]
  cases readLine strict line ctx source with
  | error fault => simp
  | ok p =>
    constructor
    · intro h
      obtain ⟨q, hq, he⟩ := map_eq_ok_iff.1 h
      cases he
      exact ⟨p.1, p.2, q.1, rfl, hq, rfl⟩
    · rintro ⟨e, ctx', rest, ⟨⟩, hrest, rfl⟩
      exact map_eq_ok_iff.2 ⟨_, hrest, rfl⟩

theorem readRows_concat_eq_ok_iff : readRows strict ctx (xs ++ [(source, line)]) = .ok (es, ctx'') ↔
    ∃ rest ctx' e, readRows strict ctx xs = .ok (rest, ctx') ∧
      readLine strict line ctx' source = .ok (e, ctx'') ∧ es = rest ++ [e] := by
  rw [readRows_append, bind_eq_ok_iff]
  constructor
  · rintro ⟨p, hp, h⟩
    obtain ⟨q, hq, he⟩ := map_eq_ok_iff.1 h
    obtain ⟨e, ctx₁, rest, hline, hrest, hqs⟩ := readRows_cons_eq_ok_iff.1 hq
    cases hrest
    cases he
    exact ⟨p.1, p.2, e, hp, hline, congrArg _ hqs⟩
  · rintro ⟨rest, ctx', e, hrest, hline, rfl⟩
    exact ⟨_, hrest, map_eq_ok_iff.2 ⟨_, readRows_cons_eq_ok_iff.2 ⟨e, ctx'', [], hline, rfl, rfl⟩, rfl⟩⟩

theorem readRows_concat_error {fault : LineFault} (h : readRows strict ctx xs = .ok (es, ctx'))
    (he : readLine strict line ctx' source = .error fault) :
    readRows strict ctx (xs ++ [(source, line)]) = .error (.ofLine line source fault) := by
  have hlast : readRows strict ctx' [(source, line)] = .error (.ofLine line source fault) := by
    rw [readRows, he]
  rw [readRows_append, h]
  show (readRows strict ctx' [(source, line)]).map _ = _
  rw [hlast]
  rfl

theorem readRows_append_error (h : readRows strict ctx xs = .error f) (ys : List (Text × Nat)) :
    readRows strict ctx (xs ++ ys) = .error f := by
  rw [readRows_append, h]
  rfl

/-- A row of a layout stands between the rows of the lines before it and those of the lines after it. -/
theorem exists_of_rows_eq {first n : Nat} {lines : List Text} (h : rows first lines = xs ++ (source, n) :: ys) :
    ∃ before after, lines = before ++ source :: after ∧ n = first + before.length ∧ isSkipped source = false ∧
      rows first before = xs ∧ rows (n + 1) after = ys := by
  induction lines generalizing first xs with
  | nil =>
    rw [rows, List.zipIdx_nil, List.filter_nil] at h
    simp at h
  | cons s lines ih =>
    rw [rows_cons] at h
    split at h
    · next hskip =>
      obtain ⟨before, after, rfl, hn, hsource, hxs, hys⟩ := ih h
      refine ⟨s :: before, after, rfl, by simp [hn]; omega, hsource, ?_, hys⟩
      rw [rows_cons, if_pos hskip, hxs]
    · next hskip =>
      cases xs with
      | nil =>
        obtain ⟨hrow, hys⟩ := List.cons.inj h
        cases hrow
        exact ⟨[], lines, rfl, rfl, by simpa using hskip, rfl, hys⟩
      | cons x xs =>
        obtain ⟨rfl, hrest⟩ := List.cons.inj h
        obtain ⟨before, after, rfl, hn, hsource, hxs, hys⟩ := ih hrest
        refine ⟨s :: before, after, rfl, by simp [hn]; omega, hsource, ?_, hys⟩
        rw [rows_cons, if_neg hskip, hxs]

/-- Where reading fails, all rows before have been read. -/
theorem exists_of_readRows_error (h : readRows strict ctx xs = .error f) :
    ∃ before source line after es ctx' fault, xs = before ++ (source, line) :: after ∧
      readRows strict ctx before = .ok (es, ctx') ∧ readLine strict line ctx' source = .error fault ∧
      f = .ofLine line source fault := by
  induction xs generalizing ctx with
  | nil => cases h
  | cons x xs ih =>
    obtain ⟨source, line⟩ := x
    rw [readRows] at h
    split at h
    · next fault hline => exact ⟨[], source, line, xs, [], ctx, fault, rfl, rfl, hline, (Except.error.inj h).symm⟩
    · next e ctx₁ hline =>
      obtain ⟨before, s, n, after, es, ctx', fault, rfl, hread, hfault, rfl⟩ := ih (map_eq_error_iff.1 h)
      have hbefore := readRows_cons_eq_ok_iff.2 ⟨e, ctx₁, es, hline, hread, rfl⟩
      exact ⟨_ :: before, s, n, after, e :: es, ctx', fault, rfl, hbefore, hfault, rfl⟩

end Rows

end Layout

end TreePlan
