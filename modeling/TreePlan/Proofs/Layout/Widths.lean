import Mathlib
import TreePlan.Proofs.Layout.Rows

/-! Which layouts are accepted, told from the widths of their lines and not from what is open while they are
read. A line may be deeper than the one before it if that is a directory, and otherwise has the width of an
earlier line since which none was narrower. Its level is one more than that of the nearest narrower line. -/

namespace TreePlan

section Each

variable {α : Type} {P Q : List α → α → Prop} {l : List α} {a : α}

/-- Each member is as it must be after those before it. -/
def Each (P : List α → α → Prop) (l : List α) : Prop :=
  ∀ before x after, l = before ++ x :: after → P before x

theorem each_nil : Each P [] := by
  intro before x after h
  simp at h

theorem each_concat_iff : Each P (l ++ [a]) ↔ Each P l ∧ P l a := by
  refine ⟨fun h => ⟨fun before x after hl => h before x (after ++ [a]) (by simp [hl]), h l a [] rfl⟩, ?_⟩
  rintro ⟨hl, ha⟩ before x after heq
  rcases List.eq_nil_or_concat after with rfl | ⟨after, b, rfl⟩
  · obtain ⟨rfl, hx⟩ := List.append_inj' heq rfl
    cases hx
    exact ha
  · rw [List.concat_eq_append, ← List.cons_append, ← List.append_assoc] at heq
    exact hl before x after (List.append_inj' heq rfl).1

end Each

namespace Layout

section Open

variable {ws past later : List Int} {w x : Int}

/-- The widths that are still open after lines of given widths: the last, and of those open before it what is
narrower. -/
def openAfter (ws : List Int) : List Int := ws.foldl (fun widths w => w :: widths.filter (· < w)) []

theorem openAfter_concat (ws : List Int) (w : Int) :
    openAfter (ws ++ [w]) = w :: (openAfter ws).filter (· < w) := by
  rw [openAfter, List.foldl_concat]
  rfl

theorem openAfter_sorted (ws : List Int) : (openAfter ws).Pairwise (· > ·) := by
  induction ws using List.reverseRecOn with
  | nil => exact .nil
  | append_singleton ws w ih =>
    rw [openAfter_concat]
    exact List.pairwise_cons.2 ⟨fun x hx => by simpa using (List.mem_filter.1 hx).2, ih.filter _⟩

theorem head?_openAfter (ws : List Int) : (openAfter ws).head? = ws.getLast? := by
  induction ws using List.reverseRecOn with
  | nil => rfl
  | append_singleton ws w _ => rw [openAfter_concat, List.getLast?_concat, List.head?_cons]

theorem filter_openAfter_append (past : List Int) (h : ∀ x ∈ later, w ≤ x) :
    (openAfter (past ++ later)).filter (· < w) = (openAfter past).filter (· < w) := by
  induction later using List.reverseRecOn with
  | nil => rw [List.append_nil]
  | append_singleton later x ih =>
    have hx : w ≤ x := h x (by simp)
    rw [← List.append_assoc, openAfter_concat, List.filter_cons_of_neg (by simpa using hx),
      List.filter_filter, ← ih fun y hy => h y (by simp [hy])]
    refine List.filter_congr fun y _ => ?_
    simp only [Bool.and_eq_left_iff_imp, decide_eq_true_eq]
    omega

/-- A width is open when a line has it and none since was narrower. -/
theorem mem_openAfter_iff :
    w ∈ openAfter ws ↔ ∃ past later, ws = past ++ w :: later ∧ ∀ x ∈ later, w ≤ x := by
  induction ws using List.reverseRecOn with
  | nil => simp [openAfter]
  | append_singleton ws x ih =>
    rw [openAfter_concat, List.mem_cons, List.mem_filter, decide_eq_true_eq, ih]
    constructor
    · rintro (rfl | ⟨⟨past, later, rfl, hlater⟩, hlt⟩)
      · exact ⟨ws, [], rfl, by simp⟩
      · refine ⟨past, later ++ [x], by simp, ?_⟩
        exact List.forall_mem_append.2 ⟨hlater, List.forall_mem_singleton.2 (Int.le_of_lt hlt)⟩
    · rintro ⟨past, later, heq, hlater⟩
      rcases List.eq_nil_or_concat later with rfl | ⟨later, y, rfl⟩
      · exact .inl (List.cons.inj (List.append_inj' heq rfl).2).1.symm
      · rw [List.concat_eq_append] at heq hlater
        rw [← List.cons_append, ← List.append_assoc] at heq
        obtain ⟨rfl, hx⟩ := List.append_inj' heq rfl
        obtain rfl : x = y := (List.cons.inj hx).1
        obtain ⟨hold, hlast⟩ := List.forall_mem_append.1 hlater
        rcases Int.lt_or_eq_of_le (hlast x (by simp)) with hlt | rfl
        · exact .inr ⟨⟨past, later, rfl, hold⟩, hlt⟩
        · exact .inl rfl

end Open

/-- A line that makes an entry, has no tab in its indentation and consists of tokens. -/
structure Row (strict : Bool) where
  source : Text
  line : Nat
  entry : Entry
  untabbed : CodePoint.ofChar '\t' ∉ source.leadingBlanks
  spells : tokens strict source = .ok entry

section Rows

variable {strict : Bool} {text : Text} {done rs : List (Row strict)} {r : Row strict} {ctx ctx' : Context}
  {es : List Entry}

namespace Row

def width (r : Row strict) : Nat := Layout.width r.source

def place (r : Row strict) : Text × Nat := (r.source, r.line)

end Row

/-- A row is deeper than the one before it only if that is a directory. -/
def Supported (before : List (Row strict)) (r : Row strict) : Prop :=
  ∀ p ∈ before.getLast?, p.width < r.width → p.entry.isDirectory = true

/-- A row is less deep than the one before it only if it has the width of an earlier one, and no row between
them is narrower. -/
def Returns (before : List (Row strict)) (r : Row strict) : Prop :=
  ∀ p ∈ before.getLast?, r.width < p.width →
    ∃ past q between, before = past ++ q :: between ∧ q.width = r.width ∧ ∀ x ∈ between, r.width ≤ x.width

def Fits (before : List (Row strict)) (r : Row strict) : Prop := Supported before r ∧ Returns before r

/-- A row that does not fit, with the fault in it. -/
inductive Misfit (before : List (Row strict)) (r : Row strict) : LineFault → Prop where
  | unsupported : ¬Supported before r → Misfit before r .indentBelowFile
  | stranded : ¬Returns before r → Misfit before r .unknownIndent

theorem Misfit.ofLine {before : List (Row strict)} {fault : LineFault} (h : Misfit before r fault) :
    ParseError.ofLine r.line r.source fault = .invalid ⟨r.line, fault, r.source⟩ := by
  cases h <;> rfl

theorem Misfit.not_fits {before : List (Row strict)} {fault : LineFault} (h : Misfit before r fault) :
    ¬Fits before r := by
  intro hfits
  cases h with
  | unsupported h => exact h hfits.1
  | stranded h => exact h hfits.2

/-- The entry of a row, as the rows before it and their entries have it. -/
structure Level (before : List (Row strict × Entry)) (p : Row strict × Entry) : Prop where
  entry : p.2 = p.1.entry.placed p.2.level p.1.line
  top : (∀ x ∈ before, p.1.width ≤ x.1.width) → p.2.level = 0
  below : ∀ past q between, before = past ++ q :: between → q.1.width < p.1.width →
    (∀ x ∈ between, p.1.width ≤ x.1.width) → q.1.entry.isDirectory = true ∧ p.2.level = q.2.level + 1

def widthsOf (rs : List (Row strict)) : List Int := rs.map fun r => (r.width : Int)

def depth (rs : List (Row strict)) : Nat := (openAfter (widthsOf rs)).length - 1

theorem widthsOf_append (xs ys : List (Row strict)) : widthsOf (xs ++ ys) = widthsOf xs ++ widthsOf ys :=
  List.map_append

theorem mem_openAfter_widthsOf_iff : (r.width : Int) ∈ openAfter (widthsOf done) ↔
    ∃ past q between, done = past ++ q :: between ∧ q.width = r.width ∧ ∀ x ∈ between, r.width ≤ x.width := by
  rw [mem_openAfter_iff]
  constructor
  · rintro ⟨past, later, heq, hlater⟩
    obtain ⟨past, rest, rfl, rfl, hrest⟩ := List.map_eq_append_iff.1 heq
    obtain ⟨q, between, rfl, hq, rfl⟩ := List.map_eq_cons_iff.1 hrest
    refine ⟨past, q, between, rfl, Int.ofNat.inj hq, fun x hx => ?_⟩
    exact Int.ofNat_le.1 (hlater _ (List.mem_map_of_mem hx))
  · rintro ⟨past, q, between, rfl, hq, hbetween⟩
    refine ⟨widthsOf past, widthsOf between, ?_, ?_⟩
    · rw [widthsOf_append, ← hq]
      rfl
    · exact List.forall_mem_map.2 fun x hx => Int.ofNat_le.2 (hbetween x hx)

/-- The context after rows that all fit. -/
structure Reached (done : List (Row strict)) (ctx : Context) : Prop where
  widths : ctx.indents.widths = openAfter (widthsOf done)
  below : ∀ p ∈ done.getLast?, ctx.belowDirectory = p.entry.isDirectory

theorem reached_nil : Reached ([] : List (Row strict)) {} := ⟨rfl, by simp⟩

section Last

variable {top : Int} {rest : List Int}

theorem Reached.last (h : Reached done ctx) (hw : ctx.indents.widths = top :: rest) :
    ∃ p, done.getLast? = some p ∧ top = p.width ∧ ctx.belowDirectory = p.entry.isDirectory := by
  have hhead : (widthsOf done).getLast? = some top := by
    rw [← head?_openAfter, ← h.widths, hw, List.head?_cons]
  unfold widthsOf at hhead
  rw [List.getLast?_map] at hhead
  obtain ⟨p, hp, rfl⟩ := Option.map_eq_some_iff.1 hhead
  exact ⟨p, hp, rfl, h.below p hp⟩

theorem Reached.supported_iff (h : Reached done ctx) (hw : ctx.indents.widths = top :: rest) :
    Supported done r ↔ (top < r.width → ctx.belowDirectory = true) := by
  obtain ⟨p, hp, rfl, hdir⟩ := h.last hw
  simp only [Supported, hp, hdir, Option.mem_def, Option.some.injEq, forall_eq', Int.ofNat_lt]

theorem Reached.returns_iff (h : Reached done ctx) (hw : ctx.indents.widths = top :: rest) :
    Returns done r ↔ ((r.width : Int) < top → (r.width : Int) ∈ top :: rest) := by
  obtain ⟨p, hp, rfl, -⟩ := h.last hw
  rw [← hw, h.widths, mem_openAfter_widthsOf_iff]
  simp only [Returns, hp, Option.mem_def, Option.some.injEq, forall_eq', Int.ofNat_lt]

end Last

theorem Reached.fits_of_nil (h : Reached done ctx) (hw : ctx.indents.widths = []) : Fits done r := by
  have hwidths : (widthsOf done).getLast? = none := by
    rw [← head?_openAfter, ← h.widths, hw, List.head?_nil]
  have hnone : done.getLast? = none := by
    unfold widthsOf at hwidths
    rwa [List.getLast?_map, Option.map_eq_none_iff] at hwidths
  exact ⟨by simp [Supported, hnone], by simp [Returns, hnone]⟩

/-- What a row that opens or returns to a width makes of the context, and its entry. -/
theorem Reached.next (h : Reached done ctx) {indents : Indents} (ht : Turn ctx r.width (.ok indents)) :
    readLine strict r.line ctx r.source =
        .ok (r.entry.placed (depth (done ++ [r])) r.line, ⟨indents, r.entry.isDirectory⟩) ∧
      Reached (done ++ [r]) ⟨indents, r.entry.isDirectory⟩ := by
  have hwidths : indents.widths = openAfter (widthsOf (done ++ [r])) := by
    have hsorted : ctx.indents.widths.Pairwise (· > ·) := h.widths ▸ openAfter_sorted _
    rw [ht.widths_eq hsorted, h.widths, widthsOf_append, ← openAfter_concat]
    rfl
  have hlevel : indents.level = depth (done ++ [r]) := by rw [Indents.level, hwidths, depth]
  constructor
  · rw [readLine_eq, ht.open_eq r.untabbed, r.spells, ← hlevel]
    rfl
  · exact ⟨hwidths, by simp⟩

/-- A row is read if it fits, and fails by the half that it violates if not. -/
theorem Reached.readLine (h : Reached done ctx) (r : Row strict) :
    (Fits done r ∧ ∃ ctx', readLine strict r.line ctx r.source =
        .ok (r.entry.placed (depth (done ++ [r])) r.line, ctx') ∧ Reached (done ++ [r]) ctx') ∨
      ∃ fault, Misfit done r fault ∧ readLine strict r.line ctx r.source = .error fault := by
  obtain ⟨result, ht⟩ := exists_turn ctx r.width
  have hopen := ht.open_eq r.untabbed
  cases ht with
  | first hw => exact .inl ⟨h.fits_of_nil hw, _, h.next (.first hw)⟩
  | deeper hw hlt hd =>
    refine .inl ⟨⟨(h.supported_iff hw).2 fun _ => hd, (h.returns_iff hw).2 fun hgt => ?_⟩, _,
      h.next (.deeper hw hlt hd)⟩
    exact absurd hlt (Int.lt_asymm hgt)
  | level hw =>
    refine .inl ⟨⟨(h.supported_iff hw).2 fun hlt => ?_, (h.returns_iff hw).2 fun hlt => ?_⟩, _,
      h.next (.level hw)⟩
    · exact absurd hlt (Int.lt_irrefl _)
    · exact absurd hlt (Int.lt_irrefl _)
  | back hw hlt hclosed =>
    refine .inl ⟨⟨(h.supported_iff hw).2 fun hgt => ?_, (h.returns_iff hw).2 fun _ => by simp⟩, _,
      h.next (.back hw hlt hclosed)⟩
    exact absurd hlt (Int.lt_asymm hgt)
  | unsupported hw hlt hd =>
    refine .inr ⟨_, .unsupported fun hs => ?_, by rw [readLine_eq, hopen]; rfl⟩
    exact absurd ((h.supported_iff hw).1 hs hlt) (by simp [hd])
  | unknown hw hlt hrest =>
    refine .inr ⟨_, .stranded fun hs => ?_, by rw [readLine_eq, hopen]; rfl⟩
    exact absurd ((h.returns_iff hw).1 hs hlt) (by simp [hrest, Int.ne_of_lt hlt])

/-- The entry of a row, at the level that the widths up to it give. -/
def Placed (before : List (Row strict × Entry)) (p : Row strict × Entry) : Prop :=
  p.2 = p.1.entry.placed (depth (before.map Prod.fst ++ [p.1])) p.1.line

/-- Rows that have been read to the end. -/
structure Outlined (rs : List (Row strict)) (es : List Entry) (ctx : Context) : Prop where
  read : readRows strict {} (rs.map Row.place) = .ok (es, ctx)
  fits : Each Fits rs
  reached : Reached rs ctx
  length : rs.length = es.length
  placed : Each Placed (rs.zip es)

theorem outlined_nil : Outlined ([] : List (Row strict)) [] {} := ⟨rfl, each_nil, reached_nil, rfl, each_nil⟩

theorem Outlined.concat (h : Outlined rs es ctx) (hfits : Fits rs r)
    (hread : readLine strict r.line ctx r.source = .ok (r.entry.placed (depth (rs ++ [r])) r.line, ctx'))
    (hreached : Reached (rs ++ [r]) ctx') :
    Outlined (rs ++ [r]) (es ++ [r.entry.placed (depth (rs ++ [r])) r.line]) ctx' := by
  refine ⟨?_, each_concat_iff.2 ⟨h.fits, hfits⟩, hreached, ?_, ?_⟩
  · rw [List.map_append]
    exact readRows_concat_eq_ok_iff.2 ⟨es, ctx, _, h.read, hread, rfl⟩
  · rw [List.length_append, List.length_append, h.length]
    rfl
  · rw [List.zip_append h.length]
    refine each_concat_iff.2 ⟨h.placed, ?_⟩
    rw [Placed, List.map_fst_zip h.length.le]

/-- Rows are read as far as they fit. -/
theorem readRows_outline (rs : List (Row strict)) :
    (∃ es ctx, Outlined rs es ctx) ∨
      ∃ before r after fault, rs = before ++ r :: after ∧ Each Fits before ∧ Misfit before r fault ∧
        readRows strict {} (rs.map Row.place) = .error (.invalid ⟨r.line, fault, r.source⟩) := by
  induction rs using List.reverseRecOn with
  | nil => exact .inl ⟨[], {}, outlined_nil⟩
  | append_singleton rs r ih =>
    rw [List.map_append]
    rcases ih with ⟨es, ctx, h⟩ | ⟨before, q, after, fault, rfl, hfits, hq, hread⟩
    · rcases h.reached.readLine r with ⟨hfits, ctx', hread, hreached⟩ | ⟨fault, hr, hread⟩
      · exact .inl ⟨_, ctx', h.concat hfits hread hreached⟩
      · refine .inr ⟨rs, r, [], fault, rfl, h.fits, hr, ?_⟩
        rw [← hr.ofLine]
        exact readRows_concat_error h.read hread
    · exact .inr ⟨before, q, after ++ [r], fault, by simp, hfits, hq, readRows_append_error hread _⟩

section Narrower

variable {past between before after : List (Row strict)} {q : Row strict}

theorem depth_of_all_le (h : ∀ x ∈ before, r.width ≤ x.width) : depth (before ++ [r]) = 0 := by
  have hle : ∀ x ∈ widthsOf before, (r.width : Int) ≤ x :=
    List.forall_mem_map.2 fun x hx => Int.ofNat_le.2 (h x hx)
  have hfilter := filter_openAfter_append [] hle
  rw [List.nil_append] at hfilter
  rw [depth, widthsOf_append]
  show (openAfter (widthsOf before ++ [(r.width : Int)])).length - 1 = 0
  rw [openAfter_concat, hfilter]
  rfl

theorem depth_of_narrower (hq : q.width < r.width) (h : ∀ x ∈ between, r.width ≤ x.width) :
    depth (past ++ q :: between ++ [r]) = depth (past ++ [q]) + 1 := by
  have hle : ∀ x ∈ widthsOf between, (r.width : Int) ≤ x :=
    List.forall_mem_map.2 fun x hx => Int.ofNat_le.2 (h x hx)
  have hopen : openAfter (widthsOf (past ++ [q])) =
      (q.width : Int) :: (openAfter (widthsOf past)).filter (· < (q.width : Int)) := by
    rw [widthsOf_append, ← openAfter_concat]
    rfl
  -- all that is open at the narrower row is narrower too, so the later row closes none of it
  have hall : ∀ x ∈ openAfter (widthsOf (past ++ [q])), decide (x < (r.width : Int)) = true := by
    rw [hopen]
    refine List.forall_mem_cons.2 ⟨by simpa using hq, fun x hx => ?_⟩
    have hxq : x < (q.width : Int) := by simpa using (List.mem_filter.1 hx).2
    simp only [decide_eq_true_eq]
    omega
  have hsplit : widthsOf (past ++ q :: between ++ [r]) =
      widthsOf (past ++ [q]) ++ widthsOf between ++ [(r.width : Int)] := by simp [widthsOf]
  rw [depth, hsplit, openAfter_concat, filter_openAfter_append _ hle, List.filter_eq_self.2 hall, depth,
    hopen]
  rfl

/-- The nearest narrower row before a row is a directory: the row after it is deeper. -/
theorem isDirectory_of_narrower (hfits : Each Fits (past ++ q :: (between ++ r :: after)))
    (hq : q.width < r.width) (h : ∀ x ∈ between, r.width ≤ x.width) : q.entry.isDirectory = true := by
  have hlast : q ∈ (past ++ [q]).getLast? := by simp
  cases between with
  | nil =>
    have hsupported : Supported (past ++ [q]) r := (hfits (past ++ [q]) r after (by simp)).1
    exact hsupported q hlast hq
  | cons x between =>
    have hsupported : Supported (past ++ [q]) x := (hfits (past ++ [q]) x (between ++ r :: after) (by simp)).1
    exact hsupported q hlast (Nat.lt_of_lt_of_le hq (h x List.mem_cons_self))

end Narrower

/-- The level of a row is told from the widths before it. -/
theorem Outlined.level (h : Outlined rs es ctx) : Each Level (rs.zip es) := by
  intro before p after hsplit
  have hp : Placed before p := h.placed before p after hsplit
  have hrs : rs = before.map Prod.fst ++ p.1 :: after.map Prod.fst := by
    rw [← List.map_fst_zip h.length.le, hsplit, List.map_append, List.map_cons]
  have hlevel : p.2.level = depth (before.map Prod.fst ++ [p.1]) := congrArg Entry.level hp
  refine ⟨by rw [hlevel]; exact hp, fun htop => ?_, ?_⟩
  · rw [hlevel, depth_of_all_le (List.forall_mem_map.2 htop)]
    rfl
  · rintro past q between rfl hq hbetween
    have hle : ∀ x ∈ between.map Prod.fst, p.1.width ≤ x.width := List.forall_mem_map.2 hbetween
    have hplaced : Placed past q := h.placed past q (between ++ p :: after) (by simp [hsplit])
    rw [List.map_append, List.map_cons] at hrs hlevel
    constructor
    · apply isDirectory_of_narrower _ hq hle
      · exact past.map Prod.fst
      · exact after.map Prod.fst
      · have hfits := h.fits
        rwa [hrs, List.append_assoc, List.cons_append] at hfits
    · rw [hlevel, depth_of_narrower hq hle, congrArg Entry.level hplaced]
      rfl

theorem exists_rows (ps : List (Text × Nat))
    (h : ∀ p ∈ ps, CodePoint.ofChar '\t' ∉ p.1.leadingBlanks ∧ ∃ e, tokens strict p.1 = .ok e) :
    ∃ rs : List (Row strict), rs.map Row.place = ps := by
  induction ps with
  | nil => exact ⟨[], rfl⟩
  | cons p ps ih =>
    obtain ⟨⟨htab, e, he⟩, hps⟩ := List.forall_mem_cons.1 h
    obtain ⟨rs, rfl⟩ := ih hps
    exact ⟨⟨p.1, p.2, e, htab, he⟩ :: rs, rfl⟩

/-- A layout whose lines can be read one by one is accepted just when each line fits those before it. Then the
lines are its entries, each one level below the nearest narrower line before it. If it is not accepted, the
first line that does not fit is to blame. -/
theorem parse_outline (strict : Bool) (text : Text)
    (h : ∀ p ∈ textRows text, CodePoint.ofChar '\t' ∉ p.1.leadingBlanks ∧ ∃ e, tokens strict p.1 = .ok e) :
    ∃ rs : List (Row strict), rs.map Row.place = textRows text ∧
      ((∃ es, parse strict text = .ok es) ↔ Each Fits rs) ∧
      (∀ es, parse strict text = .ok es → rs.length = es.length ∧ Each Level (rs.zip es)) ∧
      ∀ f, parse strict text = .error f → ∃ before r after fault, rs = before ++ r :: after ∧
        Each Fits before ∧ Misfit before r fault ∧ f = .invalid ⟨r.line, fault, r.source⟩ := by
  obtain ⟨rs, hrs⟩ := exists_rows _ h
  refine ⟨rs, hrs, ?_⟩
  rw [parse_eq, ← hrs]
  rcases readRows_outline rs with ⟨es, ctx, ho⟩ | ⟨before, r, after, fault, rfl, hfits, hr, hread⟩
  · rw [ho.read]
    refine ⟨iff_of_true ⟨es, rfl⟩ ho.fits, ?_, ?_⟩
    · rintro _ ⟨⟩
      exact ⟨ho.length, ho.level⟩
    · rintro _ ⟨⟩
  · rw [hread]
    refine ⟨iff_of_false ?_ fun hall => ?_, ?_, ?_⟩
    · rintro ⟨_, ⟨⟩⟩
    · exact hr.not_fits (hall before r after rfl)
    · rintro _ ⟨⟩
    · rintro _ ⟨⟩
      exact ⟨before, r, after, fault, rfl, hfits, hr, rfl⟩

/-- Two levels down, and back over both at once. -/
def descentText : Text := "a/\n   b/\n     c\n# note\nd"

def descentEntries : List Entry :=
  [{ name := "a", level := 0, line := 1, isDirectory := true },
    { name := "b", level := 1, line := 2, isDirectory := true },
    { name := "c", level := 2, line := 3 }, { name := "d", level := 0, line := 5 }]

theorem parse_outline_descent :
    (∀ p ∈ textRows descentText, CodePoint.ofChar '\t' ∉ p.1.leadingBlanks ∧ ∃ e, tokens false p.1 = .ok e) ∧
      ∃ rs : List (Row false), rs.map Row.place = textRows descentText ∧ Each Fits rs ∧
        Each Level (rs.zip descentEntries) := by
  have hrows : ∀ p ∈ textRows descentText, CodePoint.ofChar '\t' ∉ p.1.leadingBlanks ∧
      ∃ e, tokens false p.1 = .ok e := by
    have htext : textRows descentText =
        [(Text.ofString "a/", 1), (Text.ofString "   b/", 2), (Text.ofString "     c", 3),
          (Text.ofString "d", 5)] := by cbv
    rw [htext]
    simp only [List.forall_mem_cons]
    exact ⟨⟨by decide, _, by cbv⟩, ⟨by decide, _, by cbv⟩, ⟨by decide, _, by cbv⟩, ⟨by decide, _, by cbv⟩,
      by simp⟩
  have hparse : parse false descentText = .ok descentEntries := by cbv
  obtain ⟨rs, hplaces, hfits, hread, -⟩ := parse_outline false descentText hrows
  exact ⟨hrows, rs, hplaces, hfits.1 ⟨_, hparse⟩, (hread _ hparse).2⟩

end Rows

end Layout

end TreePlan
