import Mathlib
import TreePlan.Proofs.Layout.Rows

/-! Only the order of the widths of indentations counts. A layout whose lines are indented anew, deeper ones
deeper than others, has the entries it had, or fails where it failed. -/

namespace TreePlan

/-- The same failure, of a line that is spelled in another way. -/
def ParseError.respell (g : Text → Text) : ParseError → ParseError
  | .invalid e => .invalid ⟨e.line, e.fault, g e.source⟩
  | .oversized fault => .oversized fault

theorem ParseError.respell_ofLine (g : Text → Text) (line : Nat) (source : Text) (fault : LineFault) :
    (ofLine line source fault).respell g = ofLine line (g source) fault := by
  unfold ofLine
  cases fault.oversized? <;> rfl

def Indents.map (g : Int → Int) (i : Indents) : Indents := ⟨i.widths.map g⟩

namespace Layout

/-- The line with its indentation replaced by spaces, as many as a function makes of the blanks there were. -/
def reindentLine (f : Nat → Nat) (source : Text) : Text :=
  if isSkipped source then source
  else List.replicate (f (width source)) (CodePoint.ofChar ' ') ++ source.dropBlanks

def reindent (f : Nat → Nat) (text : Text) : Text :=
  Text.unlines "\n" ((Text.splitOn '\n' text).map (reindentLine f))

/-- The function on all widths that agrees with one on those that a line can have. -/
def moved (f : Nat → Nat) : Int → Int
  | .ofNat n => f n
  | .negSucc n => .negSucc n

/-- The context with other widths. -/
def Context.moved (f : Nat → Nat) (ctx : Context) : Context :=
  ⟨ctx.indents.map (Layout.moved f), ctx.belowDirectory⟩

variable {f : Nat → Nat} {strict : Bool} {ctx ctx' : Context} {line : Nat} {source text : Text} {w : Int}
  {r : Except LineFault Indents} {ps : List (Text × Nat)}

theorem moved_lt (hf : StrictMono f) {a b : Int} (h : a < b) : moved f a < moved f b := by
  cases a with
  | ofNat m =>
    cases b with
    | ofNat n => exact Int.ofNat_lt.2 (hf (Int.ofNat_lt.1 h))
    | negSucc n => exact absurd (Int.lt_trans h (Int.negSucc_lt_zero n)) (Int.not_lt.2 (Int.natCast_nonneg m))
  | negSucc m =>
    cases b with
    | ofNat n => exact Int.lt_of_lt_of_le (Int.negSucc_lt_zero m) (Int.natCast_nonneg (f n))
    | negSucc n => exact h

theorem moved_injective (hf : StrictMono f) : Function.Injective (moved f) := by
  intro a b h
  rcases Int.lt_trichotomy a b with hlt | he | hlt
  · exact absurd h (Int.ne_of_lt (moved_lt hf hlt))
  · exact he
  · exact absurd h.symm (Int.ne_of_lt (moved_lt hf hlt))

/-- A width does after other widths what it did, as long as their order is the same. -/
theorem Turn.moved (hf : StrictMono f) (h : Turn ctx w r) :
    Turn (ctx.moved f) (Layout.moved f w) (r.map (Indents.map (Layout.moved f))) := by
  have hmem (x : Int) (xs : List Int) (hx : x ∉ xs) : Layout.moved f x ∉ xs.map (Layout.moved f) :=
    fun hm => hx ((List.mem_map_of_injective (moved_injective hf)).1 hm)
  have hwidths : (ctx.moved f).indents.widths = ctx.indents.widths.map (Layout.moved f) := rfl
  cases h with
  | first hw =>
    rw [hw] at hwidths
    exact .first hwidths
  | deeper hw hlt hd =>
    rw [hw] at hwidths
    exact .deeper hwidths (moved_lt hf hlt) hd
  | unsupported hw hlt hd =>
    rw [hw] at hwidths
    exact .unsupported hwidths (moved_lt hf hlt) hd
  | level hw =>
    rw [hw] at hwidths
    exact .level hwidths
  | back hw hlt hclosed =>
    rw [hw, List.map_cons, List.map_append] at hwidths
    exact .back hwidths (moved_lt hf hlt) (hmem _ _ hclosed)
  | unknown hw hlt hrest =>
    rw [hw] at hwidths
    exact .unknown hwidths (moved_lt hf hlt) (hmem _ _ hrest)

theorem reindentLine_of_skipped (h : isSkipped source = true) : reindentLine f source = source := if_pos h

/-- A line that is indented anew has spaces for its indentation, and the same text. -/
theorem reindentLine_split (f : Nat → Nat) (h : isSkipped source = false) :
    (reindentLine f source).leadingBlanks = List.replicate (f (width source)) (CodePoint.ofChar ' ') ∧
      (reindentLine f source).dropBlanks = source.dropBlanks := by
  rw [reindentLine, if_neg (by simp [h])]
  exact Text.spaces_append _ (Text.isBlank_head?_dropBlanks source)

theorem isSkipped_reindentLine (f : Nat → Nat) (source : Text) :
    isSkipped (reindentLine f source) = isSkipped source := by
  cases h : isSkipped source with
  | true => rw [reindentLine_of_skipped h, h]
  | false => rw [isSkipped, (reindentLine_split f h).2, ← isSkipped, h]

theorem newline_notMem_reindentLine (h : CodePoint.ofChar '\n' ∉ source) :
    CodePoint.ofChar '\n' ∉ reindentLine f source := by
  unfold reindentLine
  split
  · exact h
  · rw [List.mem_append, not_or]
    exact ⟨Text.notMem_spaces (by decide), fun hm => h ((List.dropWhile_suffix _).subset hm)⟩

theorem textRows_reindent (f : Nat → Nat) (text : Text) :
    textRows (reindent f text) = (textRows text).map (Prod.map (reindentLine f) id) := by
  have hsplit : Text.splitOn '\n' (reindent f text) = (Text.splitOn '\n' text).map (reindentLine f) := by
    refine Text.splitOn_unlines (by simp [Text.splitOn_ne_nil]) (List.forall_mem_map.2 fun line hline => ?_)
    exact newline_notMem_reindentLine (Text.notMem_of_mem_splitOn hline)
  unfold textRows rows
  rw [hsplit, List.zipIdx_map, List.filter_map]
  exact congrArg _ (List.filter_congr fun p _ => congrArg (!·) (isSkipped_reindentLine f p.1))

theorem open_reindent (hf : StrictMono f) (hskip : isSkipped source = false)
    (htab : CodePoint.ofChar '\t' ∉ source.leadingBlanks) :
    (ctx.moved f).open (reindentLine f source).leadingBlanks =
      (ctx.open source.leadingBlanks).map (Indents.map (moved f)) := by
  have hturn : Turn (ctx.moved f) (Layout.moved f (width source))
      ((ctx.open source.leadingBlanks).map (Indents.map (moved f))) := (turn_open htab).moved hf
  rw [(reindentLine_split f hskip).1]
  apply Turn.open_eq
  · rw [List.length_replicate]
    exact hturn
  · exact Text.notMem_spaces (by decide)

/-- A line that is indented anew gives the same entry, and fails as it failed. -/
theorem readLine_reindent (hf : StrictMono f) (hskip : isSkipped source = false)
    (htab : CodePoint.ofChar '\t' ∉ source.leadingBlanks) :
    readLine strict line (ctx.moved f) (reindentLine f source) =
      (readLine strict line ctx source).map (Prod.map id (Context.moved f)) := by
  have hlevel (i : Indents) : (i.map (moved f)).level = i.level := by
    rw [Indents.level, Indents.map, List.length_map, Indents.level]
  rw [readLine_eq, readLine_eq, open_reindent hf hskip htab, tokens, (reindentLine_split f hskip).2, ← tokens]
  cases ctx.open source.leadingBlanks with
  | error fault => rfl
  | ok i =>
    show (tokens strict source).map _ = ((tokens strict source).map _).map _
    rw [hlevel]
    cases tokens strict source <;> rfl

theorem readRows_reindent (hf : StrictMono f)
    (h : ∀ p ∈ ps, isSkipped p.1 = false ∧ CodePoint.ofChar '\t' ∉ p.1.leadingBlanks) :
    readRows strict (ctx.moved f) (ps.map (Prod.map (reindentLine f) id)) =
      ((readRows strict ctx ps).map (Prod.map id (Context.moved f))).mapError
        (ParseError.respell (reindentLine f)) := by
  induction ps generalizing ctx with
  | nil => rfl
  | cons p ps ih =>
    obtain ⟨⟨hskip, htab⟩, hps⟩ := List.forall_mem_cons.1 h
    obtain ⟨source, line⟩ := p
    rw [List.map_cons, Prod.map_apply, id, readRows, readRows, readLine_reindent hf hskip htab]
    cases readLine strict line ctx source with
    | error fault => exact congrArg Except.error (ParseError.respell_ofLine ..).symm
    | ok q =>
      show (readRows strict (q.2.moved f) (ps.map (Prod.map (reindentLine f) id))).map _ =
        (((readRows strict q.2 ps).map _).map _).mapError _
      rw [ih hps]
      cases readRows strict q.2 ps <;> rfl

theorem isSkipped_of_mem_textRows {p : Text × Nat} (h : p ∈ textRows text) : isSkipped p.1 = false := by
  simpa using (List.mem_filter.1 h).2

theorem parse_reindent_eq (hf : StrictMono f)
    (h : ∀ p ∈ textRows text, CodePoint.ofChar '\t' ∉ p.1.leadingBlanks) :
    parse strict (reindent f text) = (parse strict text).mapError (ParseError.respell (reindentLine f)) := by
  have hrows : ∀ p ∈ textRows text, isSkipped p.1 = false ∧ CodePoint.ofChar '\t' ∉ p.1.leadingBlanks :=
    fun p hp => ⟨isSkipped_of_mem_textRows hp, h p hp⟩
  have hread : readRows strict (Context.moved f {}) ((textRows text).map (Prod.map (reindentLine f) id)) = _ :=
    readRows_reindent hf hrows
  have hstart : Context.moved f {} = {} := rfl
  rw [hstart] at hread
  rw [parse_eq, parse_eq, textRows_reindent, hread]
  cases readRows strict {} (textRows text) <;> rfl

section TooLong

variable {fault : LineFault} {x : Json.Fault}

/-- The tokens of a line have a number in them that is too long to be read. -/
def TooLong (strict : Bool) (source : Text) (n : Nat) : Prop :=
  ∃ fault, tokens strict source = .error fault ∧ fault.oversized? = some (.integerTooLong n)

theorem exists_of_oversized? (h : fault.oversized? = some x) : ∃ n, x = .integerTooLong n := by
  unfold LineFault.oversized? at h
  split at h
  · exact ⟨_, (Option.some.inj h).symm⟩
  · exact ⟨_, (Option.some.inj h).symm⟩
  · cases h

theorem oversized?_of_ofLine (h : ParseError.ofLine line source fault = .oversized x) :
    fault.oversized? = some x := by
  unfold ParseError.ofLine at h
  split at h
  · next y hy => rw [hy, ParseError.oversized.inj h]
  · cases h

theorem oversized?_of_open (htab : CodePoint.ofChar '\t' ∉ source.leadingBlanks)
    (h : ctx.open source.leadingBlanks = .error fault) : fault.oversized? = none := by
  have ht : Turn ctx (width source) (ctx.open source.leadingBlanks) := turn_open htab
  rw [h] at ht
  cases ht <;> rfl

/-- Lines without a tab in their indentation fail without being blamed only at such a number. -/
theorem tooLong_of_readRows (h : readRows strict ctx ps = .error (.oversized x))
    (htab : ∀ p ∈ ps, CodePoint.ofChar '\t' ∉ p.1.leadingBlanks) :
    ∃ n, x = .integerTooLong n ∧ ∃ p ∈ ps, TooLong strict p.1 n := by
  induction ps generalizing ctx with
  | nil => cases h
  | cons p ps ih =>
    obtain ⟨hp, hps⟩ := List.forall_mem_cons.1 htab
    rw [readRows] at h
    split at h
    · next fault hline =>
      have hsized : fault.oversized? = some x := oversized?_of_ofLine (Except.error.inj h)
      obtain ⟨n, rfl⟩ := exists_of_oversized? hsized
      rw [readLine_eq] at hline
      rcases bind_eq_error_iff.1 hline with hopen | ⟨i, -, htokens⟩
      · rw [oversized?_of_open hp hopen] at hsized
        cases hsized
      · exact ⟨n, rfl, p, List.mem_cons_self, fault, map_eq_error_iff.1 htokens, hsized⟩
    · obtain ⟨n, hn, q, hq, hlong⟩ := ih (map_eq_error_iff.1 h) hps
      exact ⟨n, hn, q, List.mem_cons_of_mem _ hq, hlong⟩

end TooLong

/-- Whatever function of their widths the lines are indented by, if it keeps their order, the entries are the
same. A layout that fails does so at the same line for the same reason, unless what it fails at is a number that
is too long to be read. -/
theorem parse_reindent (strict : Bool) (text : Text) (f : Nat → Nat) (hf : StrictMono f)
    (h : ∀ p ∈ textRows text, CodePoint.ofChar '\t' ∉ p.1.leadingBlanks) :
    (∃ es, parse strict text = .ok es ∧ parse strict (reindent f text) = .ok es) ∨
      (∃ line fault source, parse strict text = .error (.invalid ⟨line, fault, source⟩) ∧
        parse strict (reindent f text) = .error (.invalid ⟨line, fault, reindentLine f source⟩)) ∨
      ∃ n, (∃ p ∈ textRows text, TooLong strict p.1 n) ∧
        parse strict text = .error (.oversized (.integerTooLong n)) ∧
        parse strict (reindent f text) = .error (.oversized (.integerTooLong n)) := by
  rw [parse_reindent_eq hf h]
  cases hread : parse strict text with
  | ok es => exact .inl ⟨es, rfl, rfl⟩
  | error e =>
    cases e with
    | invalid e => exact .inr (.inl ⟨e.line, e.fault, e.source, rfl, rfl⟩)
    | oversized x =>
      have hrows : readRows strict {} (textRows text) = .error (.oversized x) :=
        map_eq_error_iff.1 ((parse_eq strict text).symm.trans hread)
      obtain ⟨n, rfl, hlong⟩ := tooLong_of_readRows hrows h
      exact .inr (.inr ⟨n, hlong, rfl, rfl⟩)

/-- A directory behind a no-break space, below it a file behind an ideographic space more, and back. -/
def blanksText : Text := "\u00a0a/\n\u00a0\u3000b\n  # note\n\u2003c/"

def blanksEntries : List Entry :=
  [{ name := "a", level := 0, line := 1, isDirectory := true }, { name := "b", level := 1, line := 2 },
    { name := "c", level := 0, line := 4, isDirectory := true }]

theorem parse_reindent_blanks :
    (StrictMono (fun n => 3 * n + 2) ∧
        ∀ p ∈ textRows blanksText, CodePoint.ofChar '\t' ∉ p.1.leadingBlanks) ∧
      parse true (reindent (fun n => 3 * n + 2) blanksText) = .ok blanksEntries := by
  have hmono : StrictMono (fun n => 3 * n + 2) := by
    intro a b hab
    show 3 * a + 2 < 3 * b + 2
    omega
  have hrows : ∀ p ∈ textRows blanksText, CodePoint.ofChar '\t' ∉ p.1.leadingBlanks := by
    have htext : textRows blanksText = [(Text.ofString "\u00a0a/", 1), (Text.ofString "\u00a0\u3000b", 2),
        (Text.ofString "\u2003c/", 4)] := by cbv
    rw [htext]
    simp only [List.forall_mem_cons]
    exact ⟨by decide, by decide, by decide, by simp⟩
  have hparse : parse true blanksText = .ok blanksEntries := by cbv
  refine ⟨⟨hmono, hrows⟩, ?_⟩
  rcases parse_reindent true blanksText _ hmono hrows with
    ⟨es, hes, hmoved⟩ | ⟨_, _, _, hes, -⟩ | ⟨_, -, hes, -⟩
  · rw [hparse] at hes
    rw [hmoved, hes]
  · rw [hparse] at hes
    cases hes
  · rw [hparse] at hes
    cases hes

end Layout

end TreePlan
