import TreePlan.Proofs.Json.Padding

/-! What becomes of a map that is written right behind something else. Nothing that could be read goes on with a
brace: a string that is open ends at the first quote of the map, a list or a map that is open is not closed by
it, and what is complete leaves it over. So the two of them together are no value. -/

namespace TreePlan.Json

/-- What is written for a map with members: a brace, a quote, and the key. -/
structure IsObject (o q : Text) : Prop where
  eq : o = CodePoint.ofChar '\x7b' :: CodePoint.ofChar '"' :: q
  key : ∃ c r, q = c :: r ∧ isBlank c = false ∧ c ∉ Text.ofString ":,]\x7d"

/-- What is left when something before a map has been read: the map, or what of it follows its first quote. -/
def Beyond (o q r : Text) : Prop := (∃ s, r = s ++ o) ∨ r = q

variable {o q s t r w : Text} {v : Value} {ps : List Piece} {depth : Nat} {c : CodePoint}

section Object

variable (ho : IsObject o q)
include ho

theorem IsObject.stops : Stops o := by
  intro c hc
  rw [ho.eq] at hc
  cases hc
  exact ⟨by decide, by decide, by decide⟩

theorem IsObject.skipBlanks_append (s : Text) : skipBlanks (s ++ o) = skipBlanks s ++ o := by
  have hbrace : ∀ c ∈ o.head?, isBlank c = false := by
    intro c hc
    rw [ho.eq] at hc
    cases hc
    rfl
  exact (Text.takeWhile_append hbrace s).2

/-- A bracket that closes at once stands before the map. -/
theorem IsObject.of_closes? {bracket : CodePoint} (hb : bracket ≠ CodePoint.ofChar '\x7b')
    (h : closes? bracket (s ++ o) = some r) : ∃ s, r = s ++ o := by
  cases s with
  | nil =>
    rw [List.nil_append, ho.eq, closes?, if_neg hb.symm] at h
    cases h
  | cons d s =>
    rw [List.cons_append, closes?] at h
    split at h
    · cases h
      exact ⟨s, rfl⟩
    · cases h

theorem IsObject.skipBlanks_rest : skipBlanks q = q := by
  obtain ⟨c, r, rfl, hc, -⟩ := ho.key
  exact List.dropWhile_cons_of_neg (by simp [hc])

end Object

section Strings

theorem Pieces.head?_ne_quote (h : Pieces w ps) : w.head? ≠ some (CodePoint.ofChar '"') := by
  cases h with
  | nil => simp
  | itself _ hq _ _ => simpa using hq
  | short => exact nofun
  | unit => exact nofun

/-- No string goes on behind a brace and a quote, for no escape ends with a brace. -/
theorem Pieces.ne_brace_quote (h : Pieces w ps) (s r : Text) :
    w ≠ s ++ CodePoint.ofChar '\x7b' :: CodePoint.ofChar '"' :: r := by
  induction h generalizing s with
  | nil => simp
  | itself _ _ _ hw ih =>
    intro he
    cases s with
    | nil =>
      obtain ⟨-, rfl⟩ := List.cons.inj he
      exact hw.head?_ne_quote rfl
    | cons d s => exact ih s (List.cons.inj he).2
  | @short e c w ps hform hw ih =>
    intro he
    match s, he with
    | [], he => exact absurd (List.cons.inj he).1 (by decide)
    | [d], he =>
      obtain ⟨rfl, -⟩ := List.cons.inj (List.cons.inj he).2
      rw [← shortEscape?_eq_some_iff] at hform
      cases hform
    | _ :: _ :: s, he => exact ih s (List.cons.inj (List.cons.inj he).2).2
  | @unit ds w u ps hu hw ih =>
    intro he
    match s, he with
    | [], he => exact absurd (List.cons.inj he).1 (by decide)
    | [d], he => exact absurd (List.cons.inj (List.cons.inj he).2).1 (by decide)
    | _ :: _ :: s, he =>
      rcases List.append_eq_append_iff.1 (List.cons.inj (List.cons.inj he).2).2 with ⟨z, -, hz⟩ | ⟨z, hz, hrest⟩
      · exact ih z hz
      · cases z with
        | nil => exact ih [] hrest.symm
        | cons d z =>
          obtain ⟨rfl, -⟩ := List.cons.inj hrest
          have hhex := hu.hex (CodePoint.ofChar '\x7b') (hz ▸ by simp)
          cases hhex

/-- A string that is open before the map ends at the first quote of it. -/
theorem beyond_of_readString (ho : IsObject o q) (h : readString (s ++ o) = .ok (t, r)) : Beyond o q r := by
  obtain ⟨⟨ps, r⟩, hread, he⟩ := map_eq_ok_iff.1 h
  cases he
  obtain ⟨w, hw, he⟩ := readPieces_eq_ok_iff.1 hread
  rcases List.append_eq_append_iff.1 he with ⟨z, rfl, hz⟩ | ⟨z, rfl, hz⟩
  · rw [ho.eq] at hz
    match z, hz with
    | [], hz => exact absurd (List.cons.inj hz).1 (by decide)
    | [_], hz => exact .inr (List.cons.inj (List.cons.inj hz).2).2.symm
    | d :: d' :: z, hz =>
      obtain ⟨hd, hz⟩ := List.cons.inj hz
      obtain ⟨hd', -⟩ := List.cons.inj hz
      rw [← hd, ← hd'] at hw
      exact absurd rfl (hw.ne_brace_quote s z)
  · cases z with
    | nil =>
      rw [ho.eq] at hz
      exact absurd (List.cons.inj hz).1 (by decide)
    | cons d z =>
      obtain ⟨-, rfl⟩ := List.cons.inj hz
      exact .inl ⟨z, rfl⟩

end Strings

/-- Behind something the map is not read with what is before it: values leave something beyond, and the members
and the items of what is open do not end. -/
structure Severed (o q : Text) (depth : Nat) : Prop where
  value : ∀ {s v r}, s ≠ [] → 2 * (s ++ o).length + 1 ≤ depth → readValue depth (s ++ o) = .ok (v, r) →
    Beyond o q r
  members : ∀ {s ms r}, 2 * (s ++ o).length + 1 ≤ depth → readMembers depth (s ++ o) = .ok (ms, r) →
    ∃ s, r = s ++ o
  items : ∀ {s vs r}, 2 * (s ++ o).length + 2 ≤ depth → readItems depth (s ++ o) = .ok (vs, r) →
    ∃ s, r = s ++ o

section Step

variable
  (hclosed : ∀ {depth v r}, 2 * o.length + 1 ≤ depth → readValue depth o = .ok (v, r) → skipBlanks r = [])
  (ih : Severed o q depth)

section

include hclosed ih

/-- After a value there is nothing left but blanks, if it was the map, or something beyond. -/
theorem Severed.value_rest (hd : 2 * (s ++ o).length + 1 ≤ depth) (h : readValue depth (s ++ o) = .ok (v, r)) :
    (skipBlanks r = [] ∨ Beyond o q r) ∧ r.length < (s ++ o).length := by
  refine ⟨?_, (readValue_depth hd hd h).2⟩
  by_cases hs : s = []
  · subst hs
    exact .inl (hclosed hd h)
  · exact .inr (ih.value hs hd h)

end

variable {α : Type} (ho : IsObject o q)
include ho

/-- What comes behind a part of a list or a map and ends it stands before the map. -/
theorem severed_next {a : α} {bracket : CodePoint} {k : Text → Except Fault (List α × Text)} {as : List α}
    (hb : bracket ∈ Text.ofString ":,]\x7d") (hr : skipBlanks r = [] ∨ Beyond o q r)
    (hk : ∀ s as' r', (s ++ o).length < r.length → k (s ++ o) = .ok (as', r') → ∃ s, r' = s ++ o)
    (h : (match skipBlanks r with
        | [] => .error .expectingComma
        | d :: r =>
          if d = bracket then .ok ([a], r)
          else if d = ',' then (k (skipBlanks r)).map fun p => (a :: p.1, p.2)
          else .error .expectingComma) = Except.ok (as, t)) : ∃ s, t = s ++ o := by
  -- The map begins with a brace and its first key with a letter; neither ends a part or comes behind one.
  have hcomma : CodePoint.ofChar ',' ∈ Text.ofString ":,]\x7d" := by decide
  have hother {d : CodePoint} {r' : Text} (hd : d ∉ Text.ofString ":,]\x7d") (hskip : skipBlanks r = d :: r') :
      False := by
    rw [hskip] at h
    dsimp only at h
    have hbracket : ¬d = bracket := fun he => hd (he ▸ hb)
    have hseparator : ¬d = CodePoint.ofChar ',' := fun he => hd (he ▸ hcomma)
    rw [if_neg hbracket, if_neg hseparator] at h
    cases h
  rcases hr with hnil | ⟨s, rfl⟩ | rfl
  · rw [hnil] at h
    cases h
  · rw [ho.skipBlanks_append] at h hother
    have hle := length_skipBlanks_le s
    cases hs : skipBlanks s with
    | nil =>
      rw [hs, List.nil_append, ho.eq] at hother
      exact (hother (by decide) rfl).elim
    | cons d s' =>
      rw [hs] at h hle
      rw [List.length_cons] at hle
      simp only [List.cons_append] at h
      split at h
      · cases h
        exact ⟨s', rfl⟩
      split at h
      · rw [ho.skipBlanks_append] at h
        obtain ⟨⟨as', r'⟩, hread, he⟩ := map_eq_ok_iff.1 h
        cases he
        have hle' := length_skipBlanks_le s'
        refine hk _ _ _ ?_ hread
        rw [List.length_append, List.length_append]
        omega
      · cases h
  · obtain ⟨c, r', hq, -, hc⟩ := ho.key
    exact (hother hc (ho.skipBlanks_rest.trans hq)).elim

include ih

theorem Severed.value_step (hs : s ≠ []) (hd : 2 * (s ++ o).length + 1 ≤ depth + 1)
    (h : readValue (depth + 1) (s ++ o) = .ok (v, r)) : Beyond o q r := by
  obtain ⟨c, s, rfl⟩ := List.exists_cons_of_ne_nil hs
  have hle := length_skipBlanks_le s
  rw [List.length_append, List.length_cons] at hd
  rw [List.cons_append, readValue] at h
  by_cases hquote : c = '"'
  · rw [if_pos hquote] at h
    obtain ⟨⟨t, r⟩, hread, he⟩ := map_eq_ok_iff.1 h
    cases he
    exact beyond_of_readString ho hread
  rw [if_neg hquote] at h
  by_cases hbrace : c = '\x7b'
  · rw [if_pos hbrace, ho.skipBlanks_append] at h
    split at h
    · next r' hr =>
      cases h
      exact .inl (ho.of_closes? (by decide) hr)
    · obtain ⟨⟨ms, r'⟩, hread, he⟩ := map_eq_ok_iff.1 h
      cases he
      refine .inl (ih.members ?_ hread)
      rw [List.length_append]
      omega
  rw [if_neg hbrace] at h
  by_cases hbracket : c = '['
  · rw [if_pos hbracket, ho.skipBlanks_append] at h
    split at h
    · next r' hr =>
      cases h
      exact .inl (ho.of_closes? (by decide) hr)
    · obtain ⟨⟨vs, r'⟩, hread, he⟩ := map_eq_ok_iff.1 h
      cases he
      refine .inl (ih.items ?_ hread)
      rw [List.length_append]
      omega
  rw [if_neg hbracket] at h
  -- Neither a word nor a number can have any of the map in it.
  have hword := readWord?_append ho.stops (c :: s)
  have hnumber := readNumber_append ho.stops (c :: s)
  rw [List.cons_append] at hword hnumber
  rw [hword, hnumber] at h
  cases hw : readWord? (c :: s) with
  | some p =>
    rw [hw] at h
    cases h
    exact .inl ⟨p.2, rfl⟩
  | none =>
    rw [hw] at h
    obtain ⟨p, -, he⟩ := map_eq_ok_iff.1 h
    cases he
    exact .inl ⟨p.2, rfl⟩

include hclosed

theorem Severed.members_step {ms : List (Text × Value)} (hd : 2 * (s ++ o).length + 1 ≤ depth + 1)
    (h : readMembers (depth + 1) (s ++ o) = .ok (ms, r)) : ∃ s, r = s ++ o := by
  cases s with
  | nil =>
    rw [List.nil_append, ho.eq, readMembers, if_neg (by decide)] at h
    cases h
  | cons c s =>
    rw [List.length_append, List.length_cons] at hd
    rw [List.cons_append, readMembers] at h
    by_cases hc : c = '"'
    swap
    · rw [if_neg hc] at h
      cases h
    rw [if_pos hc] at h
    obtain ⟨⟨key, r₁⟩, hkey, h⟩ := bind_eq_ok_iff.1 h
    have hlt := length_lt_of_readString hkey
    rw [List.length_append] at hlt
    dsimp only at h
    rcases beyond_of_readString ho hkey with ⟨s₁, rfl⟩ | rfl
    · rw [ho.skipBlanks_append] at h
      have hle := length_skipBlanks_le s₁
      rw [List.length_append] at hlt
      cases hs : skipBlanks s₁ with
      | nil =>
        rw [hs, List.nil_append, ho.eq] at h
        dsimp only at h
        rw [if_neg (by decide)] at h
        cases h
      | cons d s₂ =>
        rw [hs] at h hle
        rw [List.length_cons] at hle
        simp only [List.cons_append] at h
        split at h
        swap
        · cases h
        rw [ho.skipBlanks_append] at h
        obtain ⟨⟨v, r₂⟩, hread, h⟩ := bind_eq_ok_iff.1 h
        have hle' := length_skipBlanks_le s₂
        have hbound : 2 * (skipBlanks s₂ ++ o).length + 1 ≤ depth := by
          rw [List.length_append]
          omega
        obtain ⟨hrest, hlt'⟩ := ih.value_rest hclosed hbound hread
        refine severed_next ho (by decide) hrest (fun s as' r' hlt'' hread => ih.members ?_ hread) h
        rw [List.length_append] at hlt'
        omega
    · obtain ⟨d, r', hq, -, hd'⟩ := ho.key
      rw [ho.skipBlanks_rest, hq] at h
      dsimp only at h
      have hcolon : ¬d = CodePoint.ofChar ':' := by
        rintro rfl
        exact hd' (by decide)
      rw [if_neg hcolon] at h
      cases h

theorem Severed.items_step {vs : List Value} (hd : 2 * (s ++ o).length + 2 ≤ depth + 1)
    (h : readItems (depth + 1) (s ++ o) = .ok (vs, r)) : ∃ s, r = s ++ o := by
  rw [readItems] at h
  obtain ⟨⟨v, r'⟩, hread, h⟩ := bind_eq_ok_iff.1 h
  obtain ⟨hrest, hlt⟩ := ih.value_rest hclosed (by omega) hread
  refine severed_next ho (by decide) hrest (fun s as' r' hlt' hread => ih.items ?_ hread) h
  omega

end Step

theorem read_eq_ok_iff : read s = .ok v ↔ s.head? ≠ some (CodePoint.ofNat 0xFEFF) ∧
    ∃ r, readValue (2 * s.length + 1) (skipBlanks s) = .ok (v, r) ∧ skipBlanks r = [] := by
  unfold read
  split
  · next hmark => simp [hmark]
  · next hmark =>
    rw [bind_eq_ok_iff]
    constructor
    · rintro ⟨⟨v', r⟩, hread, h⟩
      dsimp only at h
      split at h
      · next hr =>
        cases h
        exact ⟨hmark, r, hread, List.isEmpty_iff.1 hr⟩
      · cases h
    · rintro ⟨-, r, hread, hr⟩
      refine ⟨(v, r), hread, ?_⟩
      dsimp only
      rw [hr]
      rfl

variable (ho : IsObject o q)
include ho

theorem severed
    (hclosed : ∀ {depth v r}, 2 * o.length + 1 ≤ depth → readValue depth o = .ok (v, r) → skipBlanks r = [])
    (depth : Nat) : Severed o q depth := by
  induction depth with
  | zero => exact ⟨fun _ h => absurd h (by omega), fun h => absurd h (by omega), fun h => absurd h (by omega)⟩
  | succ depth ih =>
    exact ⟨fun hs hd h => ih.value_step ho hs hd h, fun hd h => ih.members_step hclosed ho hd h,
      fun hd h => ih.items_step hclosed ho hd h⟩

theorem IsObject.closed (h : read o = .ok v) {v' : Value} (hd : 2 * o.length + 1 ≤ depth)
    (hread : readValue depth o = .ok (v', r)) : skipBlanks r = [] := by
  obtain ⟨-, r', hread', hr'⟩ := read_eq_ok_iff.1 h
  have hskip : skipBlanks o = o := ho.skipBlanks_append []
  rw [hskip] at hread'
  obtain ⟨hsame, -⟩ := readValue_depth le_rfl hd hread'
  rw [hsame] at hread
  cases hread
  exact hr'

/-- A map is read behind blanks as it is without them. -/
theorem read_blanks_append (h : read o = .ok v) (hs : skipBlanks s = []) : read (s ++ o) = .ok v := by
  obtain ⟨hmark, r, hread, hr⟩ := read_eq_ok_iff.1 h
  have hskip : skipBlanks o = o := ho.skipBlanks_append []
  rw [hskip] at hread
  refine read_eq_ok_iff.2 ⟨?_, r, ?_, hr⟩
  · cases s with
    | nil => exact hmark
    | cons c s =>
      rintro ⟨⟩
      have hblank := List.dropWhile_eq_nil_iff.1 hs _ List.mem_cons_self
      revert hblank
      decide
  · rw [ho.skipBlanks_append, hs, List.nil_append]
    refine (readValue_depth le_rfl ?_ hread).1
    rw [List.length_append]
    omega

/-- Behind anything else it is not read at all. -/
theorem read_append_ne_ok (h : read o = .ok v) (hs : skipBlanks s ≠ []) (v' : Value) : read (s ++ o) ≠ .ok v' := by
  intro hread
  obtain ⟨-, r, hread, hr⟩ := read_eq_ok_iff.1 hread
  rw [ho.skipBlanks_append] at hread
  have hle := length_skipBlanks_le s
  have hbound : 2 * (skipBlanks s ++ o).length + 1 ≤ 2 * (s ++ o).length + 1 := by
    rw [List.length_append, List.length_append]
    omega
  rcases (severed ho (fun hd hread => ho.closed h hd hread) _).value hs hbound hread with ⟨s', rfl⟩ | rfl
  · rw [ho.skipBlanks_append, ho.eq] at hr
    exact absurd hr (by simp)
  · obtain ⟨c, r', hq, -⟩ := ho.key
    rw [ho.skipBlanks_rest, hq] at hr
    cases hr

end TreePlan.Json
