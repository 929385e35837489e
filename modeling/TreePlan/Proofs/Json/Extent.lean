import TreePlan.Proofs.Json.Remnant

/-! How far a value extends in a text. What it takes of the text is told by its own characters, so it is read the
same before anything that could not be more of it; and where the members of a map end, others may go on. -/

namespace TreePlan.Json

variable {α : Type} {s w x y r : Text} {v : Value} {a : α} {as : List α} {depth depth' : Nat} {c bracket : CodePoint}

section Blanks

theorem exists_blanks (s : Text) : ∃ b, s = b ++ skipBlanks s ∧ ∀ c ∈ b, isBlank c = true :=
  ⟨s.takeWhile isBlank, List.takeWhile_append_dropWhile.symm, fun _ hc => List.mem_takeWhile_imp hc⟩

/-- A text does not begin with a blank. -/
def Begun (s : Text) : Prop := ∀ c ∈ s.head?, isBlank c = false

theorem begun_skipBlanks (s : Text) : Begun (skipBlanks s) := by
  intro c hc
  have hhead := List.head?_dropWhile_not isBlank s
  rw [Option.mem_def, skipBlanks] at hc
  rw [hc] at hhead
  simpa using hhead

theorem skipBlanks_of_begun (hb : ∀ c ∈ w, isBlank c = true) (hs : Begun s) : skipBlanks (w ++ s) = s := by
  rw [skipBlanks, List.dropWhile_append_of_pos hb]
  cases s with
  | nil => rfl
  | cons c s => exact List.dropWhile_cons_of_neg (by simp [hs c rfl])

/-- Whether a text has begun shows before its end. -/
theorem Begun.replace (h : Begun (w ++ x)) (hy : Begun y) : Begun (w ++ y) := by
  cases w with
  | nil => exact hy
  | cons c w => exact h

end Blanks

/-- A reader takes of a text what it takes before any other rest at which it may stop. -/
def Local (one : Text → Except Fault (α × Text)) : Prop :=
  ∀ s a r, one s = .ok (a, r) → Stops r →
    ∃ w, w ≠ [] ∧ s = w ++ r ∧ ∀ x, Stops x → one (w ++ x) = .ok (a, x)

/-- A comma and more, or the bracket that closes. -/
def readNext (bracket : CodePoint) (more : Text → Except Fault (List α × Text)) (a : α) (s : Text) :
    Except Fault (List α × Text) :=
  match skipBlanks s with
  | [] => .error .expectingComma
  | d :: r =>
    if d = bracket then .ok ([a], r)
    else if d = ',' then (more (skipBlanks r)).map fun p => (a :: p.1, p.2)
    else .error .expectingComma

/-- A member of an object. -/
def readMember (depth : Nat) : Text → Except Fault ((Text × Value) × Text)
  | [] => .error .expectingName
  | c :: r =>
    if c = '"' then do
      let (key, r) ← readString r
      match skipBlanks r with
      | [] => .error .expectingColon
      | colon :: r =>
        if colon = ':' then do
          let (value, r) ← readValue depth (skipBlanks r)
          return ((key, value), r)
        else .error .expectingColon
    else .error .expectingName

theorem readMembers_succ (depth : Nat) (s : Text) :
    readMembers (depth + 1) s = readMember depth s >>= fun p => readNext '\x7d' (readMembers depth) p.1 p.2 := by
  cases s with
  | nil => rfl
  | cons c r =>
    rw [readMembers, readMember]
    split
    · rw [bind_assoc]
      refine congrArg _ (funext fun p => ?_)
      dsimp only
      cases skipBlanks p.2 with
      | nil => rfl
      | cons colon r =>
        dsimp only
        split
        · rw [bind_assoc]
          rfl
        · rfl
    · rfl

theorem readItems_succ (depth : Nat) (s : Text) :
    readItems (depth + 1) s = readValue depth s >>= fun p => readNext ']' (readItems depth) p.1 p.2 := by
  rw [readItems]
  rfl

section Parts

/-- What comes behind a part: another one, or the end of them. -/
def Separates (c : CodePoint) : Prop := c = ',' ∨ c = ']' ∨ c = '\x7d'

theorem stops_cons (hc : isBlank c = true ∨ Separates c) (r : Text) : Stops (c :: r) := by
  rintro _ ⟨⟩
  simp only [isBlank, Bool.or_eq_true, decide_eq_true_eq] at hc
  rcases hc with (((rfl | rfl) | rfl) | rfl) | rfl | rfl | rfl <;> exact ⟨by decide, by decide, by decide⟩

theorem stops_append (hw : ∀ c ∈ w, isBlank c = true) (hc : Separates c) (r : Text) : Stops (w ++ c :: r) := by
  cases w with
  | nil => exact stops_cons (.inr hc) r
  | cons d w => exact stops_cons (.inl (hw d List.mem_cons_self)) _

theorem begun_cons (hc : Separates c) (r : Text) : Begun (c :: r) := by
  rintro _ ⟨⟩
  rcases hc with rfl | rfl | rfl <;> rfl

theorem readNext_close (hw : ∀ c ∈ w, isBlank c = true) (hb : Separates bracket)
    (more : Text → Except Fault (List α × Text)) (a : α) (r : Text) :
    readNext bracket more a (w ++ bracket :: r) = .ok ([a], r) := by
  rw [readNext, skipBlanks_of_begun hw (begun_cons hb r)]
  exact if_pos rfl

theorem readNext_comma (hw : ∀ c ∈ w, isBlank c = true) (hne : bracket ≠ ',')
    (more : Text → Except Fault (List α × Text)) (a : α) (r : Text) :
    readNext bracket more a (w ++ CodePoint.ofChar ',' :: r) =
      (more (skipBlanks r)).map fun p => (a :: p.1, p.2) := by
  rw [readNext, skipBlanks_of_begun hw (begun_cons (.inl rfl) r)]
  exact (if_neg hne.symm).trans (if_pos rfl)

/-- All the ways in which reading can go on behind a part. -/
theorem readNext_eq_ok_iff {more : Text → Except Fault (List α × Text)} (hb : Separates bracket) (hne : bracket ≠ ',') :
    readNext bracket more a s = .ok (as, r) ↔ ∃ w, (∀ c ∈ w, isBlank c = true) ∧
      (s = w ++ bracket :: r ∧ as = [a] ∨
        ∃ t as', s = w ++ CodePoint.ofChar ',' :: t ∧ more (skipBlanks t) = .ok (as', r) ∧ as = a :: as') := by
  constructor
  · intro h
    obtain ⟨b, hs, hblank⟩ := exists_blanks s
    refine ⟨b, hblank, ?_⟩
    rw [readNext] at h
    split at h
    · cases h
    · next d t hskip =>
      rw [hskip] at hs
      split at h
      · next hclose =>
        cases h
        exact .inl ⟨hclose ▸ hs, rfl⟩
      · split at h
        · next hcomma =>
          obtain ⟨⟨as', r'⟩, hmore, he⟩ := map_eq_ok_iff.1 h
          cases he
          exact .inr ⟨t, as', hcomma ▸ hs, hmore, rfl⟩
        · cases h
  · rintro ⟨w, hw, ⟨rfl, rfl⟩ | ⟨t, as', rfl, hmore, rfl⟩⟩
    · exact readNext_close hw hb more a r
    · rw [readNext_comma hw hne, hmore]
      rfl

/-- To this depth, what is read of parts ends with a bracket, and anything may follow. With a comma in place of
the bracket it goes on with what is read then. -/
def Ends (bracket : CodePoint) (many : Nat → Text → Except Fault (List α × Text)) (depth : Nat) : Prop :=
  ∀ s as r, many depth s = .ok (as, r) → ∃ w, s = w ++ bracket :: r ∧ as.length ≤ w.length ∧
    (∀ x, many depth (w ++ bracket :: x) = .ok (as, x)) ∧
    ∀ t, many depth (w ++ CodePoint.ofChar ',' :: t) =
      (many (depth - as.length) (skipBlanks t)).map fun p => (as ++ p.1, p.2)

variable {one : Nat → Text → Except Fault (α × Text)} {many : Nat → Text → Except Fault (List α × Text)}

/-- Reading that goes on behind a part ends as reading parts does, and it may do so behind any part. -/
theorem readNext_ends (hb : Separates bracket) (hne : bracket ≠ ',') (h : Ends bracket many depth)
    (hread : readNext bracket (many depth) a s = .ok (as, r)) :
    ∃ w, s = w ++ bracket :: r ∧ as.length ≤ w.length + 1 ∧ (∀ c, Separates c → ∀ x, Stops (w ++ c :: x)) ∧
      (∀ x, readNext bracket (many depth) a (w ++ bracket :: x) = .ok (as, x)) ∧
      ∀ t, readNext bracket (many depth) a (w ++ CodePoint.ofChar ',' :: t) =
        (many (depth + 1 - as.length) (skipBlanks t)).map fun p => (as ++ p.1, p.2) := by
  obtain ⟨b, hblank, ⟨rfl, rfl⟩ | ⟨t, as', rfl, hmore, rfl⟩⟩ := (readNext_eq_ok_iff hb hne).1 hread
  · exact ⟨b, rfl, Nat.le_add_left _ _, fun c hc x => stops_append hblank hc x, readNext_close hblank hb _ a,
      readNext_comma hblank hne _ a⟩
  · obtain ⟨b', ht, hblank'⟩ := exists_blanks t
    obtain ⟨w, hw, hlen, hclose, hcomma⟩ := h _ _ _ hmore
    have hbegun : Begun (w ++ bracket :: r) := hw ▸ begun_skipBlanks t
    have hassoc (y : Text) : b ++ CodePoint.ofChar ',' :: (b' ++ w) ++ y =
        b ++ CodePoint.ofChar ',' :: (b' ++ (w ++ y)) := by simp
    have hskip {c : CodePoint} (hc : Separates c) (x : Text) : skipBlanks (b' ++ (w ++ c :: x)) = w ++ c :: x :=
      skipBlanks_of_begun hblank' (hbegun.replace (begun_cons hc x))
    refine ⟨b ++ CodePoint.ofChar ',' :: (b' ++ w), ?_, ?_, fun c hc x => ?_, fun x => ?_, fun t' => ?_⟩
    · rw [hassoc, ← hw, ← ht]
    · simp only [List.length_append, List.length_cons]
      omega
    · rw [hassoc]
      exact stops_append hblank (.inl rfl) _
    · rw [hassoc, readNext_comma hblank hne, hskip hb, hclose]
      rfl
    · rw [hassoc, readNext_comma hblank hne, hskip (.inl rfl), hcomma, List.length_cons, Nat.add_sub_add_right]
      cases many (depth - as'.length) (skipBlanks t') <;> rfl

/-- Parts that are read as far as they go, one by one to any depth, end with their bracket. -/
theorem ends_of_local (hb : Separates bracket) (hne : bracket ≠ ',') (hzero : ∀ s p, many 0 s ≠ .ok p)
    (hsucc : ∀ d s, many (d + 1) s = one d s >>= fun p => readNext bracket (many d) p.1 p.2)
    (hone : ∀ d < depth, Local (one d)) : Ends bracket many depth := by
  induction depth with
  | zero => exact fun s as r h => absurd h (hzero s _)
  | succ depth ih =>
    intro s as r h
    rw [hsucc] at h
    obtain ⟨⟨a, r'⟩, hfirst, hnext⟩ := bind_eq_ok_iff.1 h
    obtain ⟨w', rfl, hlen, hstops, hclose, hcomma⟩ :=
      readNext_ends hb hne (ih fun d hd => hone d (Nat.lt_succ_of_lt hd)) hnext
    obtain ⟨w, hw, rfl, hlocal⟩ := hone depth (Nat.lt_succ_self _) _ _ _ hfirst (hstops _ hb r)
    refine ⟨w ++ w', (List.append_assoc w w' _).symm, ?_, fun x => ?_, fun t => ?_⟩
    · have hpos := List.length_pos_iff.2 hw
      rw [List.length_append]
      omega
    · rw [List.append_assoc, hsucc, hlocal _ (hstops _ hb x)]
      exact hclose x
    · rw [List.append_assoc, hsucc, hlocal _ (hstops _ (.inl rfl) t)]
      exact hcomma t

/-- A map or a list behind its opening bracket. -/
def readBody (bracket : CodePoint) (empty : Value) (whole : List α → Value)
    (parts : Text → Except Fault (List α × Text)) (s : Text) : Except Fault (Value × Text) :=
  match closes? bracket (skipBlanks s) with
  | some r => .ok (empty, r)
  | none => (parts (skipBlanks s)).map fun p => (whole p.1, p.2)

theorem closes?_eq_some_iff : closes? bracket s = some r ↔ s = bracket :: r := by
  cases s with
  | nil => exact iff_of_false nofun nofun
  | cons c s =>
    rw [closes?, List.cons.injEq]
    split
    · next hc => simp [hc]
    · next hc => simp [hc]

theorem closes?_eq_none_iff : closes? bracket s = none ↔ s.head? ≠ some bracket := by
  rw [Option.eq_none_iff_forall_ne_some]
  simp [closes?_eq_some_iff, List.head?_eq_some_iff]

/-- The bracket is closed at once, or there are parts. -/
theorem readBody_eq_ok_iff {empty : Value} {whole : List α → Value} {parts : Text → Except Fault (List α × Text)} :
    readBody bracket empty whole parts s = .ok (v, r) ↔ skipBlanks s = bracket :: r ∧ v = empty ∨
      (skipBlanks s).head? ≠ some bracket ∧ ∃ as, parts (skipBlanks s) = .ok (as, r) ∧ v = whole as := by
  unfold readBody
  constructor
  · intro h
    split at h
    · next r' hclose =>
      cases h
      exact .inl ⟨closes?_eq_some_iff.1 hclose, rfl⟩
    · next hopen =>
      obtain ⟨⟨as, r'⟩, hparts, he⟩ := map_eq_ok_iff.1 h
      cases he
      exact .inr ⟨closes?_eq_none_iff.1 hopen, as, hparts, rfl⟩
  · rintro (⟨hclose, rfl⟩ | ⟨hopen, as, hparts, rfl⟩)
    · rw [closes?_eq_some_iff.2 hclose]
    · rw [closes?_eq_none_iff.2 hopen, hparts]
      rfl

theorem readBody_eq_ok {empty : Value} {whole : List α → Value} (hb : Separates bracket) (h : Ends bracket many depth)
    (hread : readBody bracket empty whole (many depth) s = .ok (v, r)) :
    ∃ w, s = w ++ bracket :: r ∧ ∀ x, readBody bracket empty whole (many depth) (w ++ bracket :: x) = .ok (v, x) := by
  obtain ⟨b, hs, hblank⟩ := exists_blanks s
  rcases readBody_eq_ok_iff.1 hread with ⟨hclose, rfl⟩ | ⟨hopen, as, hparts, rfl⟩
  · refine ⟨b, hclose ▸ hs, fun x => ?_⟩
    exact readBody_eq_ok_iff.2 (.inl ⟨skipBlanks_of_begun hblank (begun_cons hb x), rfl⟩)
  · obtain ⟨w, hw, -, hclose, -⟩ := h _ _ _ hparts
    have hbegun : Begun (w ++ bracket :: r) := hw ▸ begun_skipBlanks s
    refine ⟨b ++ w, by rw [hs, hw, List.append_assoc], fun x => ?_⟩
    have hskip : skipBlanks (b ++ w ++ bracket :: x) = w ++ bracket :: x := by
      rw [List.append_assoc]
      exact skipBlanks_of_begun hblank (hbegun.replace (begun_cons hb x))
    refine readBody_eq_ok_iff.2 (.inr ⟨?_, as, hskip ▸ hclose x, rfl⟩)
    rw [hw] at hopen
    rw [hskip]
    cases w with
    | nil => exact hopen
    | cons d w => exact hopen

end Parts

section Values

theorem readValue_brace (depth : Nat) (s : Text) : readValue (depth + 1) (CodePoint.ofChar '\x7b' :: s) =
    readBody '\x7d' (.map []) (fun ms => .map (Fields.ofList ms)) (readMembers depth) s := rfl

theorem readValue_bracket (depth : Nat) (s : Text) : readValue (depth + 1) (CodePoint.ofChar '[' :: s) =
    readBody ']' (.list []) .list (readItems depth) s := rfl

/-- A word or a number. -/
def readAtom (s : Text) : Except Fault (Value × Text) :=
  match readWord? s with
  | some p => .ok p
  | none => readNumber s

/-- Words and numbers end where they can't go on. -/
theorem local_readAtom : Local readAtom := by
  intro s v r h hr
  unfold readAtom at h ⊢
  have hsuffix : r <:+ s ∧ r.length < s.length := by
    split at h
    · next p hword =>
      cases h
      refine ⟨?_, length_lt_of_readWord? hword⟩
      obtain ⟨w, hw, hv⟩ := List.exists_of_findSome?_eq_some hword
      obtain ⟨r', hr, he⟩ := Option.map_eq_some_iff.1 hv
      cases he
      exact ⟨w.1, (Text.after?_eq_some_iff.1 hr).symm⟩
    · exact ⟨suffix_of_readNumber h, length_lt_of_readNumber h⟩
  obtain ⟨⟨w, rfl⟩, hlt⟩ := hsuffix
  refine ⟨w, ?_, rfl, fun x hx => ?_⟩
  · rintro rfl
    simp at hlt
  rw [readWord?_append hr, readNumber_append hr] at h
  rw [readWord?_append hx, readNumber_append hx]
  cases hword : readWord? w with
  | some p =>
    rw [hword] at h
    obtain ⟨rfl, hp⟩ := Prod.mk.inj (Except.ok.inj h)
    have hnil : p.2 = [] := List.append_left_eq_self.1 hp
    simp [hnil]
  | none =>
    rw [hword] at h
    obtain ⟨p, hnumber, he⟩ := map_eq_ok_iff.1 h
    obtain ⟨rfl, hp⟩ := Prod.mk.inj he
    have hnil : p.2 = [] := List.append_left_eq_self.1 hp
    simp [hnumber, hnil, Except.map]

/-- A name between quotes, a colon and a value, with blanks between them. -/
theorem readMember_eq_ok_iff {key : Text} : readMember depth s = .ok ((key, v), r) ↔
    ∃ q b b' t, Spelled q key ∧ (∀ c ∈ b, isBlank c = true) ∧ (∀ c ∈ b', isBlank c = true) ∧ Begun t ∧
      s = CodePoint.ofChar '"' :: (q ++ CodePoint.ofChar '"' :: (b ++ CodePoint.ofChar ':' :: (b' ++ t))) ∧
      readValue depth t = .ok (v, r) := by
  constructor
  · intro h
    cases s with
    | nil => cases h
    | cons c s =>
      rw [readMember] at h
      by_cases hc : c = '"'
      swap
      · rw [if_neg hc] at h
        cases h
      rw [if_pos hc] at h
      obtain ⟨⟨key', r₁⟩, hkey, h⟩ := bind_eq_ok_iff.1 h
      obtain ⟨q, hq, hs⟩ := readString_eq_ok_iff.1 hkey
      obtain ⟨b, hr₁, hblank⟩ := exists_blanks r₁
      dsimp only at h
      generalize skipBlanks r₁ = u at h hr₁
      cases u with
      | nil => cases h
      | cons colon r₂ =>
        dsimp only at h
        by_cases hcolon : colon = ':'
        swap
        · rw [if_neg hcolon] at h
          cases h
        rw [if_pos hcolon] at h
        obtain ⟨⟨v', r₃⟩, hvalue, he⟩ := bind_eq_ok_iff.1 h
        cases he
        obtain ⟨b', hr₂, hblank'⟩ := exists_blanks r₂
        refine ⟨q, b, b', skipBlanks r₂, hq, hblank, hblank', begun_skipBlanks r₂, ?_, hvalue⟩
        rw [← hr₂, ← hcolon, ← hr₁, ← hs, hc]
  · rintro ⟨q, b, b', t, hq, hblank, hblank', ht, rfl, hvalue⟩
    have hcolon : Begun (CodePoint.ofChar ':' :: (b' ++ t)) := by
      rintro _ ⟨⟩
      rfl
    rw [readMember, if_pos rfl]
    refine bind_eq_ok_iff.2 ⟨_, readString_eq_ok_iff.2 ⟨q, hq, rfl⟩, ?_⟩
    dsimp only
    rw [skipBlanks_of_begun hblank hcolon]
    dsimp only
    rw [if_pos rfl, skipBlanks_of_begun hblank' ht]
    exact bind_eq_ok_iff.2 ⟨(v, r), hvalue, rfl⟩

/-- A member is read to the end of its value. -/
theorem local_readMember (h : Local (readValue depth)) : Local (readMember depth) := by
  rintro s ⟨key, v⟩ r hread hr
  obtain ⟨q, b, b', t, hq, hblank, hblank', ht, rfl, hvalue⟩ := readMember_eq_ok_iff.1 hread
  obtain ⟨w, hw, rfl, hlocal⟩ := h _ _ _ hvalue hr
  have hbegun : ∀ x, Begun (w ++ x) := by
    obtain ⟨d, w, rfl⟩ := List.exists_cons_of_ne_nil hw
    exact fun x => ht
  refine ⟨CodePoint.ofChar '"' :: (q ++ CodePoint.ofChar '"' :: (b ++ CodePoint.ofChar ':' :: (b' ++ w))),
    List.cons_ne_nil _ _, by simp, fun x hx => ?_⟩
  exact readMember_eq_ok_iff.2 ⟨q, b, b', w ++ x, hq, hblank, hblank', hbegun x, by simp, hlocal x hx⟩

/-- A string, a map or a list ends with its last character, and any text may follow it. -/
theorem readValue_delimited (hends : ∀ d < depth, Ends '\x7d' readMembers d ∧ Ends ']' readItems d)
    (hc : c = '"' ∨ c = '\x7b' ∨ c = '[') (h : readValue depth (c :: s) = .ok (v, r)) :
    ∃ w, s = w ++ r ∧ ∀ x, readValue depth (c :: (w ++ x)) = .ok (v, x) := by
  cases depth with
  | zero => cases h
  | succ depth =>
    obtain ⟨hmembers, hitems⟩ := hends depth (Nat.lt_succ_self _)
    rcases hc with rfl | rfl | rfl
    · rw [readValue, if_pos rfl] at h
      obtain ⟨⟨t, r'⟩, hread, he⟩ := map_eq_ok_iff.1 h
      cases he
      obtain ⟨q, hq, rfl⟩ := readString_eq_ok_iff.1 hread
      refine ⟨q ++ [CodePoint.ofChar '"'], by simp, fun x => ?_⟩
      have hstring : readString (q ++ [CodePoint.ofChar '"'] ++ x) = .ok (t, x) :=
        readString_eq_ok_iff.2 ⟨q, hq, by simp⟩
      rw [readValue, if_pos rfl, hstring]
      rfl
    · rw [readValue_brace] at h
      obtain ⟨w, rfl, hbody⟩ := readBody_eq_ok (.inr (.inr rfl)) hmembers h
      refine ⟨w ++ [CodePoint.ofChar '\x7d'], by simp, fun x => ?_⟩
      rw [readValue_brace, List.append_assoc]
      exact hbody x
    · rw [readValue_bracket] at h
      obtain ⟨w, rfl, hbody⟩ := readBody_eq_ok (.inr (.inl rfl)) hitems h
      refine ⟨w ++ [CodePoint.ofChar ']'], by simp, fun x => ?_⟩
      rw [readValue_bracket, List.append_assoc]
      exact hbody x

theorem local_readValue (hends : ∀ d < depth, Ends '\x7d' readMembers d ∧ Ends ']' readItems d) :
    Local (readValue depth) := by
  intro s v r h hr
  cases s with
  | nil => cases depth <;> cases h
  | cons c s =>
    by_cases hc : c = '"' ∨ c = '\x7b' ∨ c = '['
    · obtain ⟨w, rfl, hread⟩ := readValue_delimited hends hc h
      exact ⟨c :: w, List.cons_ne_nil _ _, rfl, fun x _ => hread x⟩
    · obtain ⟨hquote, hbrace, hbracket⟩ : c ≠ '"' ∧ c ≠ '\x7b' ∧ c ≠ '[' := by
        simpa only [not_or] using hc
      cases depth with
      | zero => cases h
      | succ depth =>
        have hatom (s : Text) : readValue (depth + 1) (c :: s) = readAtom (c :: s) := by
          rw [readValue, if_neg hquote, if_neg hbrace, if_neg hbracket]
          rfl
        rw [hatom] at h
        obtain ⟨w, hw, hs, hread⟩ := local_readAtom _ _ _ h hr
        obtain ⟨d, w, rfl⟩ := List.exists_cons_of_ne_nil hw
        obtain ⟨rfl, rfl⟩ := List.cons.inj hs
        exact ⟨c :: w, hw, rfl, fun x hx => (hatom _).trans (hread x hx)⟩

/-- At every depth, members and items end where their bracket is. -/
theorem ends_readMembers_readItems (depth : Nat) : Ends '\x7d' readMembers depth ∧ Ends ']' readItems depth := by
  induction depth using Nat.strong_induction_on with
  | h depth ih =>
    have hvalue : ∀ d < depth, Local (readValue d) := fun d hd => local_readValue fun d' hd' => ih d' (hd'.trans hd)
    refine ⟨?_, ?_⟩
    · exact ends_of_local (.inr (.inr rfl)) (by decide) (fun s p h => by cases s <;> cases h)
        readMembers_succ fun d hd => local_readMember (hvalue d hd)
    · exact ends_of_local (.inr (.inl rfl)) (by decide) (fun s p h => by cases s <;> cases h)
        readItems_succ hvalue

end Values

section Braces

variable {b b' p q : Text} {v' : Value} {ms ms' : List (Text × Value)}

theorem readMembers_depth (hd : 2 * s.length + 1 ≤ depth) (hd' : 2 * s.length + 1 ≤ depth')
    (h : readMembers depth s = .ok (ms, r)) : readMembers depth' s = .ok (ms, r) := by
  have hseam : Seam [] [] := ⟨nofun, nofun, by simp, by simp, rfl⟩
  have halike := (readAlike hseam depth).members (.refl s) hd hd'
  rw [h] at halike
  generalize readMembers depth' s = y' at halike
  cases halike with
  | ok _ hr _ _ =>
    obtain rfl := eq_of_padded_nil hr
    rfl

theorem skipBlanks_append_ne_nil (s : Text) {q : Text} (h : skipBlanks q ≠ []) : skipBlanks (s ++ q) ≠ [] := by
  intro hnil
  have hblank := List.dropWhile_eq_nil_iff.1 hnil
  exact h (List.dropWhile_eq_nil_iff.2 fun c hc => hblank c (List.mem_append_right s hc))

/-- A map is not over before a text is whose end is not blank. -/
theorem read_ne_ok_of_append (h : read (p ++ q) = .ok v) (hp : p.head? = some (CodePoint.ofChar '\x7b'))
    (hq : skipBlanks q ≠ []) (v' : Value) : read p ≠ .ok v' := by
  intro h'
  obtain ⟨s, rfl⟩ := List.head?_eq_some_iff.1 hp
  have hskip (t : Text) : skipBlanks (CodePoint.ofChar '\x7b' :: t) = CodePoint.ofChar '\x7b' :: t := rfl
  obtain ⟨-, r, hread, hr⟩ := read_eq_ok_iff.1 h
  obtain ⟨-, r', hread', hr'⟩ := read_eq_ok_iff.1 h'
  rw [List.cons_append, hskip] at hread
  rw [hskip] at hread'
  -- the beginning is read to the depth of the whole text, and the value does not see what comes behind it
  have hle : 2 * (CodePoint.ofChar '\x7b' :: s).length + 1 ≤
      2 * (CodePoint.ofChar '\x7b' :: (s ++ q)).length + 1 := by
    simp only [List.length_cons, List.length_append]
    omega
  obtain ⟨hread', -⟩ := readValue_depth le_rfl hle hread'
  obtain ⟨w, rfl, hwhole⟩ := readValue_delimited (fun d _ => ends_readMembers_readItems d) (.inr (.inl rfl)) hread'
  have hsame := hwhole (r' ++ q)
  rw [← List.append_assoc, hread] at hsame
  cases hsame
  exact skipBlanks_append_ne_nil r' hq hr

theorem skipBlanks_append_brace (s : Text) :
    skipBlanks (s ++ [CodePoint.ofChar '\x7d']) = skipBlanks s ++ [CodePoint.ofChar '\x7d'] := by
  have hbrace : ∀ c ∈ [CodePoint.ofChar '\x7d'].head?, isBlank c = false := by
    rintro _ ⟨⟩
    rfl
  exact (Text.takeWhile_append hbrace s).2

/-- Behind a value that takes the last brace there is nothing left. -/
theorem eq_nil_of_skipBlanks (h : s ++ [CodePoint.ofChar '\x7d'] = w ++ r) (hr : skipBlanks r = []) : r = [] := by
  rcases List.eq_nil_or_concat r with rfl | ⟨r, d, rfl⟩
  · rfl
  · rw [List.concat_eq_append, ← List.append_assoc] at h
    obtain ⟨-, hd⟩ := List.append_inj' h rfl
    rw [List.concat_eq_append, ← hd] at hr
    exact absurd hr (skipBlanks_append_ne_nil r (by decide))

/-- A value between braces takes them both, and all that is between them. -/
theorem read_braces_eq_ok_iff : read ("\x7b" ++ b ++ "\x7d") = .ok v ↔
    readValue (2 * (b.length + 2) + 1) ("\x7b" ++ b ++ "\x7d") = .ok (v, []) := by
  have hskip : skipBlanks ("\x7b" ++ b ++ "\x7d") = "\x7b" ++ b ++ "\x7d" := rfl
  have hlength : ("\x7b" ++ b ++ "\x7d" : Text).length = b.length + 2 := by
    rw [List.length_append, List.length_append, Nat.add_comm _ b.length]
    rfl
  rw [read_eq_ok_iff, hskip, hlength]
  constructor
  · rintro ⟨-, r, hread, hr⟩
    obtain ⟨w, hw, -⟩ := readValue_delimited (fun d _ => ends_readMembers_readItems d) (.inr (.inl rfl)) hread
    obtain rfl := eq_nil_of_skipBlanks hw hr
    exact hread
  · intro hread
    refine ⟨?_, [], hread, rfl⟩
    show some (CodePoint.ofChar '\x7b') ≠ some (CodePoint.ofNat 0xFEFF)
    decide

theorem head?_of_readMembers {p : List (Text × Value) × Text} (h : readMembers depth s = .ok p) :
    s.head? = some (CodePoint.ofChar '"') := by
  cases depth with
  | zero => cases s <;> cases h
  | succ depth =>
    cases s with
    | nil => cases h
    | cons c s =>
      rw [readMembers] at h
      split at h
      · next hc => rw [hc, List.head?_cons]
      · cases h

/-- What is between braces is read as nothing, or as members that end with the last brace. -/
theorem read_braces_eq_ok_iff_members : read ("\x7b" ++ b ++ "\x7d") = .ok v ↔
    (skipBlanks b = [] ∧ v = .map []) ∨
      ∃ ms, readMembers (2 * (b.length + 2)) (skipBlanks b ++ [CodePoint.ofChar '\x7d']) = .ok (ms, []) ∧
        v = .map (Fields.ofList ms) := by
  have hbraces : "\x7b" ++ b ++ "\x7d" = CodePoint.ofChar '\x7b' :: (b ++ [CodePoint.ofChar '\x7d']) := rfl
  rw [read_braces_eq_ok_iff, hbraces, readValue_brace, readBody_eq_ok_iff, skipBlanks_append_brace]
  refine or_congr ?_ ⟨?_, ?_⟩
  · exact and_congr_left' List.append_left_eq_self
  · rintro ⟨-, hms⟩
    exact hms
  · rintro ⟨ms, hms, hv⟩
    refine ⟨?_, ms, hms, hv⟩
    rw [head?_of_readMembers hms]
    decide

/-- Members between braces may be followed by a comma and the members between other ones. -/
theorem read_braces_join
    (h : readMembers (2 * (b.length + 2)) (skipBlanks b ++ [CodePoint.ofChar '\x7d']) = .ok (ms, []))
    (h' : readMembers (2 * (b'.length + 2)) (skipBlanks b' ++ [CodePoint.ofChar '\x7d']) = .ok (ms', [])) :
    read ("\x7b" ++ (b ++ "," ++ b') ++ "\x7d") = .ok (.map (Fields.ofList (ms ++ ms'))) := by
  have hle := length_skipBlanks_le b
  have hle' := length_skipBlanks_le b'
  have hlength : (b ++ "," ++ b').length = b.length + 1 + b'.length := by
    rw [List.length_append, List.length_append]
    rfl
  have hdeep : readMembers (2 * ((b ++ "," ++ b').length + 2)) (skipBlanks b ++ [CodePoint.ofChar '\x7d']) =
      .ok (ms, []) := by
    refine readMembers_depth ?_ ?_ h
    · rw [List.length_append, List.length_singleton]
      omega
    · rw [hlength, List.length_append, List.length_singleton]
      omega
  obtain ⟨w, hw, hlen, -, hcomma⟩ := (ends_readMembers_readItems _).1 _ _ _ hdeep
  obtain ⟨rfl, -⟩ := List.append_inj' hw rfl
  have hskip : skipBlanks (b ++ "," ++ b') = skipBlanks b ++ CodePoint.ofChar ',' :: b' := by
    obtain ⟨w, hb, hblank⟩ := exists_blanks b
    have hbegun : Begun (skipBlanks b ++ []) := by
      rw [List.append_nil]
      exact begun_skipBlanks b
    have hassoc : b ++ "," ++ b' = w ++ (skipBlanks b ++ CodePoint.ofChar ',' :: b') := by
      conv_lhs => rw [hb]
      simp only [List.append_assoc]
      rfl
    rw [hassoc, skipBlanks_of_begun hblank (hbegun.replace (begun_cons (.inl rfl) b'))]
  have hrest : readMembers (2 * ((b ++ "," ++ b').length + 2) - ms.length)
      (skipBlanks b' ++ [CodePoint.ofChar '\x7d']) = .ok (ms', []) := by
    refine readMembers_depth ?_ ?_ h'
    · rw [List.length_append, List.length_singleton]
      omega
    · rw [hlength, List.length_append, List.length_singleton]
      omega
  refine read_braces_eq_ok_iff_members.2 (.inr ⟨ms ++ ms', ?_, rfl⟩)
  have hassoc : skipBlanks b ++ CodePoint.ofChar ',' :: b' ++ [CodePoint.ofChar '\x7d'] =
      skipBlanks b ++ CodePoint.ofChar ',' :: (b' ++ [CodePoint.ofChar '\x7d']) := by simp
  rw [hskip, hassoc, hcomma, skipBlanks_append_brace, hrest]
  rfl

end Braces

end TreePlan.Json
