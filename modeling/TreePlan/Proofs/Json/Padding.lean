import TreePlan.Proofs.Json.Frame

/-! Blanks before the brace that closes the whole of a text do not matter. Two texts that differ only there are
read alike, each to the depth that its own length allows: as the same value, or with a fault of the same kind. -/

namespace TreePlan.Json

/-- How many digits an integer has that is too long to be read, if that is the fault. -/
def Fault.tooLong? : Fault → Option Nat
  | .integerTooLong n => some n
  | _ => none

/-- Two endings that differ in blanks alone, and that nothing before them runs into. -/
structure Seam (x x' : Text) : Prop where
  stops : Stops x
  stops' : Stops x'
  quote : CodePoint.ofChar '"' ∉ x
  quote' : CodePoint.ofChar '"' ∉ x'
  blanks : skipBlanks x = skipBlanks x'

/-- Two texts are the same, or the same up to endings. -/
inductive Padded (x x' : Text) : Text → Text → Prop where
  | same (s : Text) : Padded x x' s s
  | before (s : Text) : Padded x x' (s ++ x) (s ++ x')

/-- Such texts that begin with the same character. -/
inductive Level (x x' : Text) : Text → Text → Prop where
  | nil : Level x x' [] []
  | cons (c : CodePoint) {s s' : Text} : Padded x x' s s' → Level x x' (c :: s) (c :: s')

/-- Two readers end alike: with the same, and less left than a bound for each, or with faults that are integers of
the same length or no integers. -/
inductive Alike {α : Type} (x x' : Text) (n n' : Nat) :
    Except Fault (α × Text) → Except Fault (α × Text) → Prop where
  | ok (a : α) {r r' : Text} : Padded x x' r r' → r.length < n → r'.length < n' →
      Alike x x' n n' (.ok (a, r)) (.ok (a, r'))
  | error {f f' : Fault} : f.tooLong? = f'.tooLong? → Alike x x' n n' (.error f) (.error f')

variable {α β : Type} {x x' s s' : Text} {n n' m m' depth : Nat} {y y' : Except Fault (α × Text)} {c : CodePoint}

section Alike

theorem Alike.mono (h : Alike x x' n n' y y') (hm : n ≤ m) (hm' : n' ≤ m') : Alike x x' m m' y y' := by
  cases h with
  | ok a hp hn hn' => exact .ok a hp (hn.trans_le hm) (hn'.trans_le hm')
  | error hf => exact .error hf

theorem Alike.map (g : α → β) (h : Alike x x' n n' y y') :
    Alike x x' n n' (y.map fun p => (g p.1, p.2)) (y'.map fun p => (g p.1, p.2)) := by
  cases h with
  | ok a hp hn hn' => exact .ok (g a) hp hn hn'
  | error hf => exact .error hf

theorem Alike.bind {k k' : α × Text → Except Fault (β × Text)} (h : Alike x x' n n' y y')
    (hk : ∀ a r r', Padded x x' r r' → r.length < n → r'.length < n' →
      Alike x x' m m' (k (a, r)) (k' (a, r'))) :
    Alike x x' m m' (y >>= k) (y' >>= k') := by
  cases h with
  | ok a hp hn hn' => exact hk a _ _ hp hn hn'
  | error hf => exact .error hf

end Alike

section Level

theorem Level.refl (s : Text) : Level x x' s s := by
  cases s with
  | nil => exact .nil
  | cons c s => exact .cons c (.same s)

theorem length_skipBlanks_le (s : Text) : (skipBlanks s).length ≤ s.length := (List.dropWhile_suffix _).length_le

/-- Behind their blanks the texts begin with the same character. -/
theorem Padded.level (hx : Seam x x') (h : Padded x x' s s') : Level x x' (skipBlanks s) (skipBlanks s') := by
  cases h with
  | same s => exact .refl _
  | before s =>
    induction s with
    | nil =>
      rw [List.nil_append, List.nil_append, hx.blanks]
      exact .refl _
    | cons c s ih =>
      by_cases hc : isBlank c = true
      · simpa [skipBlanks, hc] using ih
      · simpa [skipBlanks, hc] using Level.cons c (.before s)

theorem Level.padded (h : Level x x' s s') : Padded x x' s s' := by
  cases h with
  | nil => exact .same []
  | cons c h =>
    cases h with
    | same => exact .same _
    | before s => exact .before (c :: s)

theorem Level.isEmpty_eq (h : Level x x' s s') : s.isEmpty = s'.isEmpty := by
  cases h with
  | nil => rfl
  | cons => rfl

/-- A bracket closes both texts or neither. -/
theorem Level.closes? (h : Level x x' s s') (bracket : CodePoint) :
    Json.closes? bracket s = none ∧ Json.closes? bracket s' = none ∨
      ∃ r r', Json.closes? bracket s = some r ∧ Json.closes? bracket s' = some r' ∧ Padded x x' r r' ∧
        r.length < s.length ∧ r'.length < s'.length := by
  cases h with
  | nil => exact .inl ⟨rfl, rfl⟩
  | @cons c t t' h =>
    by_cases hc : c = bracket
    · exact .inr ⟨t, t', if_pos hc, if_pos hc, h, Nat.lt_succ_self _, Nat.lt_succ_self _⟩
    · exact .inl ⟨if_neg hc, if_neg hc⟩

end Level

section Tokens

theorem alike_readString (hx : Seam x x') (h : Padded x x' s s') :
    Alike x x' s.length s'.length (readString s) (readString s') := by
  have hshort (s : Text) (f : Fault) (hf : readString s = .error f) : f.tooLong? = none := by
    cases f with
    | integerTooLong n => exact absurd hf (readString_ne_tooLong s n)
    | _ => rfl
  cases h with
  | same s =>
    cases hs : readString s with
    | error f => exact .error rfl
    | ok p => exact .ok p.1 (.same p.2) (length_lt_of_readString hs) (length_lt_of_readString hs)
  | before s =>
    cases hs : readString s with
    | ok p =>
      have hread := (readString_append_eq_ok_iff hx.quote).2 ⟨p.2, hs, rfl⟩
      have hread' := (readString_append_eq_ok_iff hx.quote').2 ⟨p.2, hs, rfl⟩
      rw [hread, hread']
      exact .ok p.1 (.before p.2) (length_lt_of_readString hread) (length_lt_of_readString hread')
    | error f =>
      -- the quote that would close the string lies in neither ending
      have hfail {z : Text} (hz : CodePoint.ofChar '"' ∉ z) : ∃ f, readString (s ++ z) = .error f := by
        cases hread : readString (s ++ z) with
        | error f => exact ⟨f, rfl⟩
        | ok p =>
          obtain ⟨r, hr, -⟩ := (readString_append_eq_ok_iff hz).1 hread
          rw [hs] at hr
          cases hr
      obtain ⟨g, hg⟩ := hfail hx.quote
      obtain ⟨g', hg'⟩ := hfail hx.quote'
      rw [hg, hg']
      exact .error ((hshort _ _ hg).trans (hshort _ _ hg').symm)

theorem alike_readNumber (hx : Seam x x') (h : Padded x x' s s') :
    Alike x x' s.length s'.length (readNumber s) (readNumber s') := by
  cases h with
  | same s =>
    cases hs : readNumber s with
    | error f => exact .error rfl
    | ok p => exact .ok p.1 (.same p.2) (length_lt_of_readNumber hs) (length_lt_of_readNumber hs)
  | before s =>
    rw [readNumber_append hx.stops, readNumber_append hx.stops']
    cases hs : readNumber s with
    | error f => exact .error rfl
    | ok p =>
      have hlt := length_lt_of_readNumber hs
      refine .ok p.1 (.before p.2) ?_ ?_
      · simpa using hlt
      · simpa using hlt

theorem readWord?_padded (hx : Seam x x') (h : Padded x x' s s') :
    readWord? s = none ∧ readWord? s' = none ∨
      ∃ v r r', readWord? s = some (v, r) ∧ readWord? s' = some (v, r') ∧ Padded x x' r r' := by
  cases h with
  | same s =>
    cases readWord? s with
    | none => exact .inl ⟨rfl, rfl⟩
    | some p => exact .inr ⟨p.1, p.2, p.2, rfl, rfl, .same _⟩
  | before s =>
    rw [readWord?_append hx.stops, readWord?_append hx.stops']
    cases readWord? s with
    | none => exact .inl ⟨rfl, rfl⟩
    | some p => exact .inr ⟨p.1, p.2 ++ x, p.2 ++ x', rfl, rfl, .before _⟩

/-- After a part of a map or a list either bracket or comma decides, in both texts. -/
theorem alike_next (hx : Seam x x') (h : Padded x x' s s') (hn : s.length < n) (hn' : s'.length < n') (a : α)
    (bracket : CodePoint) {k k' : Text → Except Fault (List α × Text)}
    (hk : ∀ r r', Padded x x' r r' → r.length < s.length → r'.length < s'.length →
      Alike x x' n n' (k (skipBlanks r)) (k' (skipBlanks r'))) :
    Alike x x' n n'
      (match skipBlanks s with
        | [] => .error .expectingComma
        | d :: r =>
          if d = bracket then .ok ([a], r)
          else if d = ',' then (k (skipBlanks r)).map fun p => (a :: p.1, p.2)
          else .error .expectingComma)
      (match skipBlanks s' with
        | [] => .error .expectingComma
        | d :: r =>
          if d = bracket then .ok ([a], r)
          else if d = ',' then (k' (skipBlanks r)).map fun p => (a :: p.1, p.2)
          else .error .expectingComma) := by
  have hle := length_skipBlanks_le s
  have hle' := length_skipBlanks_le s'
  have hlevel := h.level hx
  generalize skipBlanks s = u at hle hlevel
  generalize skipBlanks s' = u' at hle' hlevel
  cases hlevel with
  | nil => exact .error rfl
  | @cons d r r' hr =>
    rw [List.length_cons] at hle hle'
    dsimp only
    by_cases hclose : d = bracket
    · rw [if_pos hclose, if_pos hclose]
      exact .ok [a] hr (by omega) (by omega)
    rw [if_neg hclose, if_neg hclose]
    by_cases hcomma : d = ','
    · rw [if_pos hcomma, if_pos hcomma]
      exact (hk r r' hr (by omega) (by omega)).map (a :: ·)
    · rw [if_neg hcomma, if_neg hcomma]
      exact .error rfl

end Tokens

/-- To this depth the readers of values, of members and of items end alike on texts that are the same up to
endings, whatever depth is enough for the other text. -/
structure ReadAlike (x x' : Text) (depth : Nat) : Prop where
  value : ∀ {depth' s s'}, Level x x' s s' → 2 * s.length + 1 ≤ depth → 2 * s'.length + 1 ≤ depth' →
    Alike x x' s.length s'.length (readValue depth s) (readValue depth' s')
  members : ∀ {depth' s s'}, Level x x' s s' → 2 * s.length + 1 ≤ depth → 2 * s'.length + 1 ≤ depth' →
    Alike x x' s.length s'.length (readMembers depth s) (readMembers depth' s')
  items : ∀ {depth' s s'}, Level x x' s s' → 2 * s.length + 2 ≤ depth → 2 * s'.length + 2 ≤ depth' →
    Alike x x' s.length s'.length (readItems depth s) (readItems depth' s')

section Step

variable (hx : Seam x x') (ih : ReadAlike x x' depth)
include hx ih

theorem ReadAlike.value_step {depth' : Nat} (h : Level x x' s s') (hd : 2 * s.length + 1 ≤ depth + 1)
    (hd' : 2 * s'.length + 1 ≤ depth' + 1) :
    Alike x x' s.length s'.length (readValue (depth + 1) s) (readValue (depth' + 1) s') := by
  cases h with
  | nil => exact .error rfl
  | @cons c t t' h =>
    have hlevel := h.level hx
    have hle := length_skipBlanks_le t
    have hle' := length_skipBlanks_le t'
    rw [List.length_cons] at hd hd'
    rw [readValue, readValue, List.length_cons, List.length_cons]
    by_cases hquote : c = '"'
    · rw [if_pos hquote, if_pos hquote]
      exact ((alike_readString hx h).map Value.text).mono (Nat.le_succ _) (Nat.le_succ _)
    rw [if_neg hquote, if_neg hquote]
    by_cases hbrace : c = '\x7b'
    · rw [if_pos hbrace, if_pos hbrace]
      rcases hlevel.closes? '\x7d' with ⟨hnone, hnone'⟩ | ⟨r, r', hsome, hsome', hr, hlt, hlt'⟩
      · rw [hnone, hnone']
        exact ((ih.members hlevel (by omega) (by omega)).map fun ms => Value.map (Fields.ofList ms)).mono
          (by omega) (by omega)
      · rw [hsome, hsome']
        exact .ok _ hr (by omega) (by omega)
    rw [if_neg hbrace, if_neg hbrace]
    by_cases hbracket : c = '['
    · rw [if_pos hbracket, if_pos hbracket]
      rcases hlevel.closes? ']' with ⟨hnone, hnone'⟩ | ⟨r, r', hsome, hsome', hr, hlt, hlt'⟩
      · rw [hnone, hnone']
        exact ((ih.items hlevel (by omega) (by omega)).map Value.list).mono (by omega) (by omega)
      · rw [hsome, hsome']
        exact .ok _ hr (by omega) (by omega)
    rw [if_neg hbracket, if_neg hbracket]
    have hpadded := (Level.cons c h).padded
    rcases readWord?_padded hx hpadded with ⟨hnone, hnone'⟩ | ⟨v, r, r', hsome, hsome', hr⟩
    · rw [hnone, hnone']
      exact alike_readNumber hx hpadded
    · rw [hsome, hsome']
      exact .ok v hr (length_lt_of_readWord? hsome) (length_lt_of_readWord? hsome')

theorem ReadAlike.members_step {depth' : Nat} (h : Level x x' s s') (hd : 2 * s.length + 1 ≤ depth + 1)
    (hd' : 2 * s'.length + 1 ≤ depth' + 1) :
    Alike x x' s.length s'.length (readMembers (depth + 1) s) (readMembers (depth' + 1) s') := by
  cases h with
  | nil => exact .error rfl
  | @cons c t t' h =>
    rw [List.length_cons] at hd hd'
    rw [readMembers, readMembers, List.length_cons, List.length_cons]
    by_cases hc : c = '"'
    swap
    · rw [if_neg hc, if_neg hc]
      exact .error rfl
    rw [if_pos hc, if_pos hc]
    refine (alike_readString hx h).bind fun key r r' hr hlt hlt' => ?_
    dsimp only
    have hle := length_skipBlanks_le r
    have hle' := length_skipBlanks_le r'
    have hlevel := hr.level hx
    generalize skipBlanks r = u at hle hlevel
    generalize skipBlanks r' = u' at hle' hlevel
    cases hlevel with
    | nil => exact .error rfl
    | @cons d u u' hu =>
      dsimp only
      rw [List.length_cons] at hle hle'
      by_cases hcolon : d = ':'
      swap
      · rw [if_neg hcolon, if_neg hcolon]
        exact .error rfl
      rw [if_pos hcolon, if_pos hcolon]
      have hskip := length_skipBlanks_le u
      have hskip' := length_skipBlanks_le u'
      refine (ih.value (hu.level hx) (by omega) (by omega)).bind fun v q q' hq hlt hlt' => ?_
      refine alike_next hx hq (by omega) (by omega) (key, v) '\x7d' fun r r' hr hlt hlt' => ?_
      have hskip := length_skipBlanks_le r
      have hskip' := length_skipBlanks_le r'
      exact (ih.members (hr.level hx) (by omega) (by omega)).mono (by omega) (by omega)

theorem ReadAlike.items_step {depth' : Nat} (h : Level x x' s s') (hd : 2 * s.length + 2 ≤ depth + 1)
    (hd' : 2 * s'.length + 2 ≤ depth' + 1) :
    Alike x x' s.length s'.length (readItems (depth + 1) s) (readItems (depth' + 1) s') := by
  rw [readItems, readItems]
  refine (ih.value h (by omega) (by omega)).bind fun v q q' hq hlt hlt' => ?_
  refine alike_next hx hq (by omega) (by omega) v ']' fun r r' hr hlt hlt' => ?_
  have hskip := length_skipBlanks_le r
  have hskip' := length_skipBlanks_le r'
  exact (ih.items (hr.level hx) (by omega) (by omega)).mono (by omega) (by omega)

end Step

theorem readAlike (hx : Seam x x') (depth : Nat) : ReadAlike x x' depth := by
  have hsucc {n m : Nat} (h : n + 1 ≤ m) : ∃ k, m = k + 1 := ⟨m - 1, by omega⟩
  induction depth with
  | zero => exact ⟨fun _ h => absurd h (by omega), fun _ h => absurd h (by omega), fun _ h => absurd h (by omega)⟩
  | succ depth ih =>
    refine ⟨fun h hd hd' => ?_, fun h hd hd' => ?_, fun h hd hd' => ?_⟩
    · obtain ⟨depth', rfl⟩ := hsucc hd'
      exact ih.value_step hx h hd hd'
    · obtain ⟨depth', rfl⟩ := hsucc hd'
      exact ih.members_step hx h hd hd'
    · obtain ⟨depth', rfl⟩ := hsucc hd'
      exact ih.items_step hx h hd hd'

section Depth

variable {depth' : Nat} {v : Value} {r : Text}

theorem eq_of_padded_nil (h : Padded [] [] s s') : s = s' := by
  cases h with
  | same => rfl
  | before => rfl

/-- Whatever depth the length of a text allows, its value is the same, and takes something of it. -/
theorem readValue_depth (hd : 2 * s.length + 1 ≤ depth) (hd' : 2 * s.length + 1 ≤ depth')
    (h : readValue depth s = .ok (v, r)) : readValue depth' s = .ok (v, r) ∧ r.length < s.length := by
  have hseam : Seam [] [] := ⟨nofun, nofun, by simp, by simp, rfl⟩
  have halike := (readAlike hseam depth).value (.refl s) hd hd'
  rw [h] at halike
  generalize readValue depth' s = y' at halike
  cases halike with
  | ok _ hr hlt _ =>
    obtain rfl := eq_of_padded_nil hr
    exact ⟨rfl, hlt⟩

end Depth

section Brace

variable {w body : Text}

theorem stops_brace (hw : ∀ c ∈ w, isBlank c = true) : Stops (w ++ [CodePoint.ofChar '\x7d']) := by
  intro c hc
  have hmem : c = ' ' ∨ c = '\t' ∨ c = '\n' ∨ c = '\r' ∨ c = '\x7d' := by
    cases w with
    | nil =>
      obtain rfl : CodePoint.ofChar '\x7d' = c := Option.some.inj hc
      simp
    | cons d w =>
      obtain rfl : d = c := Option.some.inj hc
      have hblank := hw d List.mem_cons_self
      simp only [isBlank, Bool.or_eq_true, decide_eq_true_eq] at hblank
      tauto
  rcases hmem with rfl | rfl | rfl | rfl | rfl <;> exact ⟨by decide, by decide, by decide⟩

theorem seam_brace (hw : ∀ c ∈ w, isBlank c = true) :
    Seam [CodePoint.ofChar '\x7d'] (w ++ [CodePoint.ofChar '\x7d']) where
  stops := stops_brace (w := []) (by simp)
  stops' := stops_brace hw
  quote := by decide
  quote' := by
    rw [List.mem_append, not_or]
    exact ⟨fun hm => absurd (hw _ hm) (by decide), by decide⟩
  blanks := (List.dropWhile_append_of_pos hw).symm

/-- The members of a map may have blanks behind them. -/
theorem read_braces_append (hw : ∀ c ∈ w, isBlank c = true) (body : Text) :
    (∃ v, read ("\x7b" ++ body ++ "\x7d") = .ok v ∧ read ("\x7b" ++ (body ++ w) ++ "\x7d") = .ok v) ∨
      ∃ f f', read ("\x7b" ++ body ++ "\x7d") = .error f ∧ read ("\x7b" ++ (body ++ w) ++ "\x7d") = .error f' ∧
        f.tooLong? = f'.tooLong? := by
  have hx := seam_brace hw
  let s : Text := CodePoint.ofChar '\x7b' :: (body ++ [CodePoint.ofChar '\x7d'])
  let s' : Text := CodePoint.ofChar '\x7b' :: (body ++ (w ++ [CodePoint.ofChar '\x7d']))
  have hs : "\x7b" ++ body ++ "\x7d" = s := rfl
  have hs' : "\x7b" ++ (body ++ w) ++ "\x7d" = s' := by
    simp only [List.append_assoc]
    rfl
  have hread (t : Text) : read (CodePoint.ofChar '\x7b' :: t) =
      readValue (2 * (CodePoint.ofChar '\x7b' :: t).length + 1) (CodePoint.ofChar '\x7b' :: t) >>= fun p =>
        if (skipBlanks p.2).isEmpty then .ok p.1 else .error .extraData := rfl
  have hlevel : Level [CodePoint.ofChar '\x7d'] (w ++ [CodePoint.ofChar '\x7d']) s s' := .cons _ (.before body)
  have halike := (readAlike hx (2 * s.length + 1)).value hlevel le_rfl (le_refl (2 * s'.length + 1))
  rw [hs, hs', hread, hread]
  generalize readValue (2 * s.length + 1) s = y at halike
  generalize readValue (2 * s'.length + 1) s' = y' at halike
  cases halike with
  | error hf => exact .inr ⟨_, _, rfl, rfl, hf⟩
  | @ok v r r' hr _ _ =>
    have hend := (hr.level hx).isEmpty_eq
    by_cases hempty : (skipBlanks r).isEmpty = true
    · exact .inl ⟨v, if_pos hempty, if_pos (hend ▸ hempty)⟩
    · exact .inr ⟨_, _, if_neg hempty, if_neg (hend ▸ hempty), rfl⟩

end Brace

end TreePlan.Json
