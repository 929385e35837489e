import Mathlib
import TreePlan.Proofs.Json.Padding
import TreePlan.Proofs.Layout.Block
import TreePlan.Proofs.Layout.Reindent

/-! Blanks at the end of a line do not matter. Each reader of a line takes what it took and leaves the blanks
with the rest, until nothing but extras can follow; there they stand before the brace that closes the members. -/

namespace TreePlan

/-- Such blanks as may be added at the end of a line. -/
def IsPad (w : Text) : Prop := ∀ c ∈ w, c = ' ' ∨ c = '\t' ∨ c = '\r'

/-- The rest of a line, and the same with such blanks behind it. -/
def Trails (r r' : Text) : Prop := ∃ w, IsPad w ∧ r' = r ++ w

/-- The same fault, or two that the members of extras have and that are no integers of different lengths. -/
def LineFault.Alike (f f' : LineFault) : Prop :=
  f = f' ∨ ∃ x x', f = .invalidExtras x ∧ f' = .invalidExtras x' ∧ x.tooLong? = x'.tooLong?

theorem LineFault.Alike.oversized?_eq {f f' : LineFault} (h : f.Alike f') : f.oversized? = f'.oversized? := by
  rcases h with rfl | ⟨x, x', rfl, rfl, hlong⟩
  · rfl
  · cases x <;> cases x' <;> simp_all [Json.Fault.tooLong?, LineFault.oversized?]

section Pad

variable {w : Text} {c : CodePoint}

theorem IsPad.isBlank (hw : IsPad w) : ∀ c ∈ w, c.isBlank = true := by
  intro c hc
  rcases hw c hc with rfl | rfl | rfl <;> rfl

theorem IsPad.isBlank_json (hw : IsPad w) : ∀ c ∈ w, Json.isBlank c = true := by
  intro c hc
  rcases hw c hc with rfl | rfl | rfl <;> rfl

theorem IsPad.notMem (hw : IsPad w) (hc : c.isBlank = false) : c ∉ w := by
  intro hm
  rw [hw.isBlank c hm] at hc
  cases hc

/-- A beginning without blanks is found before them. -/
theorem IsPad.after?_append (hw : IsPad w) {a : Text} (ha : (a.all fun c => !c.isBlank) = true) (s : Text) :
    Text.after? a (s ++ w) = (Text.after? a s).map (· ++ w) := by
  refine Text.after?_append (fun c hc hm => ?_) s
  have hblank := hw.isBlank c (List.mem_of_mem_head? hc)
  have hplain := List.all_eq_true.1 ha c hm
  rw [hblank] at hplain
  cases hplain

theorem IsPad.startsWith_append (hw : IsPad w) {a : Text} (ha : (a.all fun c => !c.isBlank) = true) (s : Text) :
    Text.startsWith (s ++ w) a = Text.startsWith s a := by
  rw [Text.startsWith_eq_isSome, Text.startsWith_eq_isSome, hw.after?_append ha, Option.isSome_map]

end Pad

namespace Token

variable {s w label stops : Text} {α : Type}

theorem eq_map_of_append {f : Text → Option (α × Text)}
    (h : ∀ a r, f (s ++ w) = some (a, r) ↔ ∃ r', f s = some (a, r') ∧ r = r' ++ w) :
    f (s ++ w) = (f s).map fun p => (p.1, p.2 ++ w) := by
  refine Option.ext fun p => ?_
  rw [h p.1 p.2, Option.map_eq_some_iff]
  constructor
  · rintro ⟨r, hr, he⟩
    exact ⟨(p.1, r), hr, Prod.ext rfl he.symm⟩
  · rintro ⟨q, hq, rfl⟩
    exact ⟨q.2, hq, rfl⟩

theorem throughQuote?_eq_none (h : CodePoint.ofChar '"' ∉ s) : throughQuote? s = none := by
  fun_induction throughQuote? s with
  | case1 => rfl
  | case2 => simp at h
  | case3 => rfl
  | case4 e r _ ih => rw [ih (by simp_all), Option.map_none]
  | case5 c r _ _ ih => rw [ih (by simp_all), Option.map_none]

variable (hw : IsPad w) (s)
include hw

theorem throughQuote?_append_pad : throughQuote? (s ++ w) = (throughQuote? s).map fun p => (p.1, p.2 ++ w) := by
  -- No quote is among the blanks, so a literal that is open at the end of the line stays open.
  have hquote : CodePoint.ofChar '"' ∉ w := hw.notMem rfl
  fun_induction throughQuote? s with
  | case1 => exact throughQuote?_eq_none hquote
  | case2 =>
    unfold throughQuote?
    rfl
  | case3 =>
    refine throughQuote?_eq_none ?_
    simpa using ⟨by decide, hquote⟩
  | case4 e r _ ih =>
    show (throughQuote? (r ++ w)).map _ = _
    rw [ih, Option.map_map, Option.map_map]
    rfl
  | case5 c r hq hb ih =>
    rw [List.cons_append, Json.throughQuote?_cons hq hb, ih, Option.map_map, Option.map_map]
    rfl

theorem readQuoted_append_pad :
    readQuoted label (s ++ w) = (readQuoted label s).map fun p => (p.1, p.2 ++ w) := by
  have hliteral : literal? (s ++ w) = (literal? s).map fun p => (p.1, p.2 ++ w) := by
    cases s with
    | nil =>
      cases w with
      | nil => rfl
      | cons c w =>
        have hquote : CodePoint.ofChar '"' ∉ w := fun hm => hw.notMem rfl (List.mem_cons_of_mem c hm)
        show (throughQuote? w).map _ = none
        rw [throughQuote?_eq_none hquote, Option.map_none]
    | cons c s =>
      rw [List.cons_append, literal?, literal?, throughQuote?_append_pad s hw, Option.map_map, Option.map_map]
      rfl
  rw [readQuoted, readQuoted, hliteral]
  cases literal? s with
  | none => rfl
  | some p =>
    dsimp only [Option.map_some]
    split
    · rfl
    · rfl
    · rfl

theorem readBare_append_pad : readBare stops (s ++ w) = ((readBare stops s).1, (readBare stops s).2 ++ w) := by
  have hend : ∀ c ∈ w.head?, isBare stops c = false := by
    intro c hc
    simp [isBare, hw.isBlank c (List.mem_of_mem_head? hc)]
  obtain ⟨htake, hdrop⟩ := Text.takeWhile_append hend s
  rw [readBare, htake, hdrop]
  rfl

/-- A word that is quoted, or not, ends where it ended. -/
theorem readWord_append_pad :
    readWord label stops (s ++ w) = (readWord label stops s).map fun p => (p.1, p.2 ++ w) := by
  have hstart : Text.startsWith (s ++ w) "\"" = Text.startsWith s "\"" := hw.startsWith_append (by decide) s
  rw [readWord, readWord, hstart, readQuoted_append_pad s hw, readBare_append_pad s hw]
  split <;> rfl

theorem readMode?_append_pad : readMode? (s ++ w) = (readMode? s).map fun p => (p.1, p.2 ++ w) := by
  have hclose : CodePoint.ofChar ')' ∉ w := hw.notMem rfl
  refine eq_map_of_append fun d r => ?_
  simp only [readMode?_eq_some_iff, Text.append_eq_append_cons_iff hclose]
  constructor
  · rintro ⟨hd, r', hs, hr⟩
    exact ⟨r', ⟨hd, hs⟩, hr⟩
  · rintro ⟨r', ⟨hd, hs⟩, hr⟩
    exact ⟨hd, r', hs, hr⟩

theorem readField?_append_pad : readField? (s ++ w) = (readField? s).map fun p => (p.1, p.2 ++ w) := by
  have hcomma : CodePoint.ofChar ',' ∉ w := hw.notMem rfl
  refine eq_map_of_append fun t r => ?_
  simp only [readField?_eq_some_iff, Text.append_eq_append_cons_iff hcomma]
  constructor
  · rintro ⟨ht, r', hs, hr⟩
    exact ⟨r', ⟨ht, hs⟩, hr⟩
  · rintro ⟨r', ⟨ht, hs⟩, hr⟩
    exact ⟨ht, r', hs, hr⟩

theorem readOwnedMode?_append_pad :
    readOwnedMode? (s ++ w) = (readOwnedMode? s).map fun p => (p.1, p.2 ++ w) := by
  unfold readOwnedMode?
  rw [readField?_append_pad s hw]
  cases readField? s with
  | none => rfl
  | some p =>
    simp only [Option.map_some, Option.bind_eq_bind, Option.bind_some, readField?_append_pad p.2 hw]
    cases readField? p.2 with
    | none => rfl
    | some q =>
      simp only [Option.map_some, Option.bind_some, readMode?_append_pad q.2 hw]
      cases readMode? q.2 <;> rfl

theorem readPermission_append_pad :
    readPermission (s ++ w) = (readPermission s).map fun p => (p.1, p.2 ++ w) := by
  rw [readPermission, readPermission, hw.after?_append (by decide)]
  cases Text.after? "(" s with
  | none => rfl
  | some t =>
    simp only [Option.map_some, readBareMode?, readOwnedMode?_append_pad t hw, readMode?_append_pad t hw]
    cases readOwnedMode? t with
    | some p => rfl
    | none => cases readMode? t <;> rfl

end Token

section Trails

variable {s s' r r' w : Text}

theorem dropBlanks_append_pad (hw : IsPad w) (s : Text) :
    (s ++ w).dropBlanks = if s.dropBlanks = [] then [] else s.dropBlanks ++ w := by
  rw [Text.dropBlanks, List.dropWhile_append]
  have hnil : w.dropWhile CodePoint.isBlank = [] := List.dropWhile_eq_nil_iff.2 hw.isBlank
  simp [Text.dropBlanks, hnil]

theorem Trails.dropBlanks (h : Trails s s') : Trails s.dropBlanks s'.dropBlanks := by
  obtain ⟨w, hw, rfl⟩ := h
  rw [dropBlanks_append_pad hw]
  split
  · next hnil => exact ⟨[], by simp [IsPad], by rw [hnil, List.append_nil]⟩
  · exact ⟨w, hw, rfl⟩

/-- An arrow is found in both lines or in neither. -/
theorem Trails.afterArrow? (h : Trails s s') : Token.afterArrow? s = none ∧ Token.afterArrow? s' = none ∨
    ∃ r r', Token.afterArrow? s = some r ∧ Token.afterArrow? s' = some r' ∧ Trails r r' := by
  obtain ⟨w, hw, hs⟩ := h.dropBlanks
  unfold Token.afterArrow?
  rw [hs, hw.after?_append (by decide)]
  cases Text.after? "->" s.dropBlanks with
  | none => exact .inl ⟨rfl, rfl⟩
  | some t => exact .inr ⟨_, _, rfl, rfl, Trails.dropBlanks ⟨w, hw, rfl⟩⟩

end Trails

namespace Layout

/-- Two readers of a line come to the same, up to blanks behind what they leave. -/
inductive TakesAlike {α : Type} : Except LineFault (α × Text) → Except LineFault (α × Text) → Prop where
  | ok (a : α) {r r' : Text} : Trails r r' → TakesAlike (.ok (a, r)) (.ok (a, r'))
  | error (f : LineFault) : TakesAlike (.error f) (.error f)

/-- The same, or faults that are alike. -/
inductive EndsAlike {α : Type} : Except LineFault α → Except LineFault α → Prop where
  | ok (a : α) : EndsAlike (.ok a) (.ok a)
  | error {f f' : LineFault} : f.Alike f' → EndsAlike (.error f) (.error f')

section Readers

variable {α β : Type} {s s' w : Text} {x x' : Except LineFault (α × Text)}

theorem TakesAlike.bind {k k' : α × Text → Except LineFault (β × Text)} (h : TakesAlike x x')
    (hk : ∀ a r r', Trails r r' → TakesAlike (k (a, r)) (k' (a, r'))) : TakesAlike (x >>= k) (x' >>= k') := by
  cases h with
  | ok a hr => exact hk a _ _ hr
  | error f => exact .error f

theorem TakesAlike.finish {k k' : α × Text → Except LineFault β} (h : TakesAlike x x')
    (hk : ∀ a r r', Trails r r' → EndsAlike (k (a, r)) (k' (a, r'))) : EndsAlike (x >>= k) (x' >>= k') := by
  cases h with
  | ok a hr => exact hk a _ _ hr
  | error f => exact .error (.inl rfl)

theorem takesAlike_append (hw : IsPad w) (x : Except LineFault (α × Text)) :
    TakesAlike x (x.map fun p => (p.1, p.2 ++ w)) := by
  cases x with
  | ok p => exact .ok p.1 ⟨w, hw, rfl⟩
  | error f => exact .error f

theorem takesAlike_readWord (h : Trails s s') (label stops : Text) :
    TakesAlike (Token.readWord label stops s) (Token.readWord label stops s') := by
  obtain ⟨w, hw, rfl⟩ := h
  rw [Token.readWord_append_pad s hw]
  exact takesAlike_append hw _

theorem takesAlike_readName (h : Trails s s') : TakesAlike (readName s) (readName s') := by
  refine (takesAlike_readWord h _ _).bind fun name r r' hr => ?_
  dsimp only
  by_cases hempty : name.isEmpty = true
  · simp only [hempty, if_true]
    exact .error _
  by_cases hslash : name.contains '/' = true
  · simp only [hempty, hslash, if_true]
    exact .error _
  by_cases hdot : name = "." ∨ name = ".."
  · simp only [hempty, hslash, hdot, if_true]
    exact .error _
  · simp only [hempty, hslash, hdot, if_false]
    exact .ok name hr

theorem readSlash_trails (h : Trails s s') :
    (readSlash s').1 = (readSlash s).1 ∧ Trails (readSlash s).2 (readSlash s').2 := by
  obtain ⟨w, hw, rfl⟩ := h
  unfold readSlash
  rw [hw.after?_append (by decide)]
  cases Text.after? "/" s with
  | none => exact ⟨rfl, w, hw, rfl⟩
  | some r => exact ⟨rfl, w, hw, rfl⟩

theorem takesAlike_readPermission? (h : Trails s s') : TakesAlike (readPermission? s) (readPermission? s') := by
  obtain ⟨w, hw, rfl⟩ := h
  rw [readPermission?, readPermission?, hw.startsWith_append (by decide), Token.readPermission_append_pad s hw]
  split
  · cases Token.readPermission s with
    | ok p => exact .ok _ ⟨w, hw, rfl⟩
    | error f => exact .error f
  · exact .ok none ⟨w, hw, rfl⟩

theorem takesAlike_readTarget? (h : Trails s s') (isDirectory : Bool) :
    TakesAlike (readTarget? isDirectory s) (readTarget? isDirectory s') := by
  unfold readTarget?
  rcases h.afterArrow? with ⟨hnone, hnone'⟩ | ⟨r, r', hsome, hsome', hr⟩
  · rw [hnone, hnone']
    exact .ok none h
  · rw [hsome, hsome']
    dsimp only
    split
    · exact .error _
    · refine (takesAlike_readWord hr _ _).bind fun target q q' hq => ?_
      dsimp only
      split
      · exact .error _
      · exact .ok (some target) hq

theorem readExtras_eq (s : Text) : readExtras s =
    if s.dropBlanks = [] then .ok []
    else if s.dropBlanks.length = s.length then .error .trailingText
    else Token.decodeExtras s.dropBlanks := by
  have hblank : s.isBlank = true ↔ s.dropBlanks = [] := by
    rw [Text.isBlank, List.all_eq_true]
    exact List.dropWhile_eq_nil_iff.symm
  unfold readExtras Token.splitExtras
  by_cases hnil : s.dropBlanks = []
  · simp [hnil, hblank.2 hnil]
  by_cases hlen : s.dropBlanks.length = s.length
  · have hplain : s.isBlank = false := by rwa [← Bool.not_eq_true, hblank]
    simp [hnil, hlen, hplain]
  · simp [hnil, hlen, Text.isBlank]

theorem endsAlike_decodeExtras (hw : IsPad w) (body : Text) :
    EndsAlike (Token.decodeExtras body) (Token.decodeExtras (body ++ w)) := by
  unfold Token.decodeExtras
  rcases Json.read_braces_append hw.isBlank_json body with ⟨v, hv, hv'⟩ | ⟨f, f', hf, hf', hlong⟩
  · rw [hv, hv']
    cases v with
    | map fields => exact .ok fields
    | _ => exact .error (.inl rfl)
  · rw [hf, hf']
    exact .error (.inr ⟨f, f', rfl, rfl, hlong⟩)

/-- Behind extras the blanks stand before the brace that closes the members. -/
theorem endsAlike_readExtras (h : Trails s s') : EndsAlike (readExtras s) (readExtras s') := by
  obtain ⟨w, hw, rfl⟩ := h
  rw [readExtras_eq, readExtras_eq, dropBlanks_append_pad hw]
  by_cases hnil : s.dropBlanks = []
  · simp only [hnil, if_true]
    exact .ok []
  have hne : s.dropBlanks ++ w ≠ [] := by simp [hnil]
  rw [if_neg hnil, if_neg hnil, if_neg hne]
  by_cases hlen : s.dropBlanks.length = s.length
  · rw [if_pos hlen, if_pos (by simp [hlen])]
    exact .error (.inl rfl)
  · rw [if_neg hlen, if_neg (by simpa using hlen)]
    exact endsAlike_decodeExtras hw _

end Readers

theorem EndsAlike.bind {α β : Type} {x x' : Except LineFault α} (h : EndsAlike x x')
    (k : α → Except LineFault β) : EndsAlike (x >>= k) (x' >>= k) := by
  cases h with
  | ok a =>
    show EndsAlike (k a) (k a)
    cases k a with
    | ok b => exact .ok b
    | error f => exact .error (.inl rfl)
  | error hf => exact .error hf

theorem EndsAlike.eq_ok {α : Type} {a : α} {x : Except LineFault α} (h : EndsAlike (.ok a) x) : x = .ok a := by
  cases h
  rfl

theorem EndsAlike.eq_error {α : Type} {f : LineFault} {x : Except LineFault α} (h : EndsAlike (.error f) x) :
    ∃ f', x = .error f' ∧ f.Alike f' := by
  cases h with
  | error hf => exact ⟨_, rfl, hf⟩

theorem EndsAlike.map {α β : Type} {x x' : Except LineFault α} (h : EndsAlike x x') (g : α → β) :
    EndsAlike (x.map g) (x'.map g) := by
  cases h with
  | ok a => exact .ok (g a)
  | error hf => exact .error hf

theorem endsAlike_readSpec (strict : Bool) {s s' : Text} (h : Trails s s') :
    EndsAlike (readSpec strict 0 0 s) (readSpec strict 0 0 s') := by
  refine (takesAlike_readName h).finish fun name r r' hr => ?_
  obtain ⟨hdirectory, hr⟩ := readSlash_trails hr
  dsimp only
  rw [hdirectory]
  refine (takesAlike_readPermission? hr).finish fun permission r r' hr => ?_
  refine (takesAlike_readTarget? hr _).finish fun target r r' hr => ?_
  exact (endsAlike_readExtras hr).bind _

section Lines

variable {strict : Bool} {ctx : Context} {line : Nat} {source text w : Text} {fault : LineFault}
  {ps : List (Text × Nat)} {pad : Nat → Text}

theorem isSkipped_append_pad (hw : IsPad w) (source : Text) : isSkipped (source ++ w) = isSkipped source := by
  unfold isSkipped
  rw [dropBlanks_append_pad hw]
  by_cases hnil : source.dropBlanks = []
  · rw [if_pos hnil, hnil]
  · have hstart := hw.startsWith_append (a := "#") (by decide) source.dropBlanks
    obtain ⟨c, t, ht⟩ := List.exists_cons_of_ne_nil hnil
    rw [if_neg hnil]
    rw [ht] at hstart ⊢
    exact hstart

theorem leadingBlanks_append (h : isSkipped source = false) (w : Text) :
    (source ++ w).leadingBlanks = source.leadingBlanks := by
  have hne : source.dropBlanks ≠ [] := by
    intro hnil
    rw [isSkipped, hnil] at h
    cases h
  have hlen : ¬source.leadingBlanks.length = source.length := by
    have hsplit := congrArg List.length source.leadingBlanks_append_dropBlanks
    rw [List.length_append] at hsplit
    have hpos := List.length_pos_iff.2 hne
    omega
  unfold Text.leadingBlanks at hlen ⊢
  rw [List.takeWhile_append, if_neg hlen]

theorem oversized?_of_open_error (h : ctx.open source.leadingBlanks = .error fault) : fault.oversized? = none := by
  by_cases htab : CodePoint.ofChar '\t' ∈ source.leadingBlanks
  · rw [Context.open, if_pos (List.contains_iff_mem.2 htab)] at h
    cases h
    rfl
  · exact oversized?_of_open htab h

/-- A line reads alike with blanks behind it, and an integer that is too long is one of its tokens. -/
theorem endsAlike_readLine (hw : IsPad w) (hskip : isSkipped source = false) :
    EndsAlike (readLine strict line ctx source) (readLine strict line ctx (source ++ w)) := by
  rw [readLine_eq, readLine_eq, leadingBlanks_append hskip]
  cases ctx.open source.leadingBlanks with
  | error f => exact .error (.inl rfl)
  | ok indents =>
    have htokens : EndsAlike (tokens strict source) (tokens strict (source ++ w)) :=
      endsAlike_readSpec strict (Trails.dropBlanks ⟨w, hw, rfl⟩)
    exact htokens.map _

theorem tooLong_of_readLine {x : Json.Fault} (h : readLine strict line ctx source = .error fault)
    (hx : fault.oversized? = some x) : ∃ n, x = .integerTooLong n ∧ TooLong strict source n := by
  obtain ⟨n, rfl⟩ := exists_of_oversized? hx
  rw [readLine_eq] at h
  rcases bind_eq_error_iff.1 h with hopen | ⟨i, -, htokens⟩
  · rw [oversized?_of_open_error hopen] at hx
    cases hx
  · exact ⟨n, rfl, fault, map_eq_error_iff.1 htokens, hx⟩

/-- Lines with blanks behind them come to the same entries, or fail at the same line, or at the same integer that
is too long to be read. -/
inductive PadsAlike {α : Type} (strict : Bool) (pad : Nat → Text) (ps : List (Text × Nat)) :
    Except ParseError α → Except ParseError α → Prop where
  | ok (a : α) : PadsAlike strict pad ps (.ok a) (.ok a)
  | invalid {line : Nat} {source : Text} {f f' : LineFault} : f.Alike f' →
      PadsAlike strict pad ps (.error (.invalid ⟨line, f, source⟩))
        (.error (.invalid ⟨line, f', source ++ pad line⟩))
  | oversized {n : Nat} : (∃ p ∈ ps, TooLong strict p.1 n) →
      PadsAlike strict pad ps (.error (.oversized (.integerTooLong n))) (.error (.oversized (.integerTooLong n)))

/-- Blanks behind each of the lines, which are numbered. -/
def padRow (pad : Nat → Text) (p : Text × Nat) : Text × Nat := (p.1 ++ pad p.2, p.2)

theorem PadsAlike.map {α β : Type} {x x' : Except ParseError α} (h : PadsAlike strict pad ps x x') (g : α → β) :
    PadsAlike strict pad ps (x.map g) (x'.map g) := by
  cases h with
  | ok a => exact .ok (g a)
  | invalid hf => exact .invalid hf
  | oversized hlong => exact .oversized hlong

theorem PadsAlike.mono {α : Type} {x x' : Except ParseError α} {qs : List (Text × Nat)}
    (h : PadsAlike strict pad ps x x') (hsub : ps ⊆ qs) : PadsAlike strict pad qs x x' := by
  cases h with
  | ok a => exact .ok a
  | invalid hf => exact .invalid hf
  | oversized hlong =>
    obtain ⟨p, hp, hlong⟩ := hlong
    exact .oversized ⟨p, hsub hp, hlong⟩

/-- A layout with blanks behind each of its lines, which are counted from one. -/
def padLines (pad : Nat → Text) (text : Text) : Text :=
  Text.unlines "\n" (((Text.splitOn '\n' text).zipIdx 1).map fun p => p.1 ++ pad p.2)

theorem zipIdx_map_zipIdx {α : Type} (g : α × Nat → α) (l : List α) (k : Nat) :
    ((l.zipIdx k).map g).zipIdx k = (l.zipIdx k).map fun p => (g p, p.2) := by
  induction l generalizing k with
  | nil => rfl
  | cons a l ih => rw [List.zipIdx_cons, List.map_cons, List.zipIdx_cons, ih, List.map_cons]

theorem textRows_padLines (hpad : ∀ k, IsPad (pad k)) (text : Text) :
    textRows (padLines pad text) = (textRows text).map (padRow pad) := by
  have hsplit : Text.splitOn '\n' (padLines pad text) =
      ((Text.splitOn '\n' text).zipIdx 1).map fun p => p.1 ++ pad p.2 := by
    refine Text.splitOn_unlines (by simp [Text.splitOn_ne_nil]) (List.forall_mem_map.2 fun p hp => ?_)
    rw [List.mem_append, not_or]
    have hline : p.1 ∈ Text.splitOn '\n' text := List.fst_mem_of_mem_zipIdx hp
    exact ⟨Text.notMem_of_mem_splitOn hline, fun hm => by have := hpad p.2 _ hm; revert this; decide⟩
  unfold textRows rows
  rw [hsplit, zipIdx_map_zipIdx, List.filter_map]
  exact congrArg _ (List.filter_congr fun p _ => congrArg (!·) (isSkipped_append_pad (hpad p.2) p.1))

theorem padsAlike_readRows (hpad : ∀ k, IsPad (pad k)) (hps : ∀ p ∈ ps, isSkipped p.1 = false) :
    PadsAlike strict pad ps (readRows strict ctx ps) (readRows strict ctx (ps.map (padRow pad))) := by
  -- A line leaves one context, with blanks behind it or without, so the lines after it are read in the same.
  induction ps generalizing ctx with
  | nil => exact .ok _
  | cons p ps ih =>
    obtain ⟨source, line⟩ := p
    obtain ⟨hskip, hps⟩ := List.forall_mem_cons.1 hps
    rw [List.map_cons, padRow, readRows, readRows]
    have hline : EndsAlike (readLine strict line ctx source) (readLine strict line ctx (source ++ pad line)) :=
      endsAlike_readLine (hpad line) hskip
    cases hread : readLine strict line ctx source with
    | error f =>
      rw [hread] at hline
      obtain ⟨f', hread', hf⟩ := hline.eq_error
      rw [hread']
      dsimp only
      unfold ParseError.ofLine
      rw [← hf.oversized?_eq]
      cases hx : f.oversized? with
      | none => exact .invalid hf
      | some x =>
        obtain ⟨n, rfl, hlong⟩ := tooLong_of_readLine hread hx
        exact .oversized ⟨_, List.mem_cons_self, hlong⟩
    | ok q =>
      rw [hread] at hline
      rw [hline.eq_ok]
      exact ((ih hps).map _).mono (List.subset_cons_self ..)

theorem padsAlike_parse (hpad : ∀ k, IsPad (pad k)) (strict : Bool) (text : Text) :
    PadsAlike strict pad (textRows text) (parse strict text) (parse strict (padLines pad text)) := by
  rw [parse_eq, parse_eq, textRows_padLines hpad]
  exact (padsAlike_readRows hpad fun p hp => isSkipped_of_mem_textRows hp).map _

end Lines

section Returns

variable {text : Text}

/-- The text with a carriage return before each of its newlines. -/
def crlf (text : Text) : Text := text.flatMap fun c : CodePoint => if c = '\n' then ['\r', '\n'] else [c]

theorem crlf_eq_unlines (text : Text) : crlf text = Text.unlines "\r\n" (Text.splitOn '\n' text) := by
  unfold crlf
  fun_induction Text.splitOn (CodePoint.ofChar '\n') text with
  | case1 => rfl
  | case2 r ih =>
    obtain ⟨p, ps, hp⟩ := List.exists_cons_of_ne_nil (Text.splitOn_ne_nil '\n' r)
    rw [List.flatMap_cons, if_pos rfl, ih, hp, Text.unlines_cons_cons]
    rfl
  | case3 c r _ h => exact absurd h (Text.splitOn_ne_nil _ r)
  | case4 c r hc p ps h ih =>
    rw [List.flatMap_cons, if_neg hc, ih, h]
    cases ps with
    | nil => simp [Text.unlines_singleton]
    | cons q qs => simp [Text.unlines_cons_cons]

/-- A carriage return behind each line but the last. -/
def returns (text : Text) (line : Nat) : Text := if line < (Text.splitOn '\n' text).length then "\r" else []

theorem isPad_returns (text : Text) (line : Nat) : IsPad (returns text line) := by
  intro c hc
  unfold returns at hc
  split at hc
  · exact .inr (.inr (List.mem_singleton.1 hc))
  · cases hc

theorem unlines_returns (lines : List Text) (k : Nat) :
    Text.unlines "\n" ((lines.zipIdx k).map fun p =>
      p.1 ++ if p.2 + 1 < k + lines.length then Text.ofString "\r" else []) = Text.unlines "\r\n" lines := by
  induction lines generalizing k with
  | nil => rfl
  | cons l lines ih =>
    cases lines with
    | nil => simp [Text.unlines_singleton]
    | cons m lines =>
      have hrest := ih (k + 1)
      have hlen : k + (l :: m :: lines).length = k + 1 + (m :: lines).length := by
        simp only [List.length_cons]
        omega
      have hfirst : k + 1 < k + 1 + (m :: lines).length := by simp
      rw [hlen, List.zipIdx_cons, List.map_cons, if_pos hfirst]
      rw [List.zipIdx_cons, List.map_cons] at hrest ⊢
      rw [Text.unlines_cons_cons, hrest, Text.unlines_cons_cons, List.append_assoc l]
      rfl

theorem crlf_eq_padLines (text : Text) : crlf text = padLines (returns text) text := by
  rw [crlf_eq_unlines, ← unlines_returns _ 1, padLines]
  refine congrArg _ (List.map_congr_left fun p _ => ?_)
  unfold returns
  congr 2
  rw [eq_iff_iff]
  omega

end Returns

/-- Whatever spaces, tabs and carriage returns are added at the ends of the lines, the entries are the same, as
they are with carriage returns before the newlines. A layout that fails does so at the same line, with the same
fault unless it lies in the extras, and unless what it fails at is a number that is too long to be read. -/
theorem parse_padLines (strict : Bool) (text : Text) (pad : Nat → Text) (h : ∀ line, IsPad (pad line)) :
    ((∃ es, parse strict text = .ok es ∧ parse strict (padLines pad text) = .ok es) ∨
      (∃ line fault fault' source, fault.Alike fault' ∧
        parse strict text = .error (.invalid ⟨line, fault, source⟩) ∧
        parse strict (padLines pad text) = .error (.invalid ⟨line, fault', source ++ pad line⟩)) ∨
      ∃ n, (∃ p ∈ textRows text, TooLong strict p.1 n) ∧
        parse strict text = .error (.oversized (.integerTooLong n)) ∧
        parse strict (padLines pad text) = .error (.oversized (.integerTooLong n))) ∧
      ∀ es, parse strict (crlf text) = .ok es ↔ parse strict text = .ok es := by
  refine ⟨?_, fun es => ?_⟩
  · have halike := padsAlike_parse h strict text
    generalize parse strict text = x at halike
    generalize parse strict (padLines pad text) = x' at halike
    cases halike with
    | ok es => exact .inl ⟨es, rfl, rfl⟩
    | invalid hf => exact .inr (.inl ⟨_, _, _, _, hf, rfl, rfl⟩)
    | oversized hlong => exact .inr (.inr ⟨_, hlong, rfl, rfl⟩)
  · rw [crlf_eq_padLines]
    have halike := padsAlike_parse (isPad_returns text) strict text
    generalize parse strict text = x at halike
    generalize parse strict (padLines (returns text) text) = x' at halike
    cases halike with
    | ok es => exact Iff.rfl
    | invalid => exact ⟨nofun, nofun⟩
    | oversized => exact ⟨nofun, nofun⟩

/-- A directory, a link in it, a comment, a file with a mode and a content. -/
def trailedText : Text := "a/\n  b -> c\n# d\n\"e\"(644) \"content\": \"f\""

def trailedEntries : List Entry :=
  [{ name := "a", level := 0, line := 1, isDirectory := true },
    { name := "b", level := 1, line := 2, target := some "c" },
    { name := "e", level := 0, line := 4, mode := some 0o644, modeText := some "644", content := some "f" }]

theorem parse_padLines_trailed :
    (∀ line, IsPad ((fun line => List.replicate line (CodePoint.ofChar '\t') ++ "\r") line)) ∧
      parse true (padLines (fun line => List.replicate line (CodePoint.ofChar '\t') ++ "\r") trailedText) =
        .ok trailedEntries ∧
      parse true (crlf trailedText) = .ok trailedEntries := by
  have hpad : ∀ line, IsPad ((fun line => List.replicate line (CodePoint.ofChar '\t') ++ "\r") line) := by
    intro line c hc
    rcases List.mem_append.1 hc with hc | hc
    · exact .inr (.inl (List.eq_of_mem_replicate hc))
    · exact .inr (.inr (List.mem_singleton.1 hc))
  have hparse : parse true trailedText = .ok trailedEntries := by cbv
  obtain ⟨hsame, hcrlf⟩ := parse_padLines true trailedText _ hpad
  refine ⟨hpad, ?_, (hcrlf _).2 hparse⟩
  rcases hsame with ⟨es, hes, hpadded⟩ | ⟨_, _, _, _, -, hes, -⟩ | ⟨_, -, hes, -⟩
  · rw [hparse] at hes
    rw [hpadded, hes]
  · rw [hparse] at hes
    cases hes
  · rw [hparse] at hes
    cases hes

end Layout

end TreePlan
