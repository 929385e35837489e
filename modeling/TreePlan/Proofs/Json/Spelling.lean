import TreePlan.Proofs.Fields
import TreePlan.Proofs.Json.Quoting
import TreePlan.Proofs.Text.Scanning

/-! Every plain value can be written so that it is read back as it was, with the members of its maps in
their order. A written value ends by itself, so it may stand among others in a list or a map. -/

namespace TreePlan

/-- Nothing is lost of a value when it is written: its texts are whole, its numbers not too long to be
read, and no map has a key twice. -/
inductive Value.Plain : Value → Prop where
  | null : Plain .null
  | bool (b : Bool) : Plain (.bool b)
  | int {n : Int} : n.natAbs < 10 ^ Numeral.digitLimit → Plain (.int n)
  | text {t : Text} : t.Whole → Plain (.text t)
  | list {items : List Value} : (∀ v ∈ items, Plain v) → Plain (.list items)
  | map {fields : Fields} : fields.keys.Nodup → (∀ p ∈ fields, p.1.Whole) → (∀ p ∈ fields, Plain p.2) →
      Plain (.map fields)

/-- Any integer that a double can stand for exactly is short enough. -/
theorem Value.plain_int_of_lt {n : Int} (h : n.natAbs < 2 ^ 53) : (Value.int n).Plain := by
  have hpow : 10 ^ 16 ≤ 10 ^ Numeral.digitLimit := Nat.pow_le_pow_right (by decide) (by decide)
  exact .int ((h.trans_le (by decide)).trans_le hpow)

namespace Json

mutual

/-- As `print`, but the members of a map stay in their order. -/
def spell : Value → Text
  | .list items => "[" ++ Text.unlines ", " (spellItems items) ++ "]"
  | .map fields => "\x7b" ++ Text.unlines ", " (spellFields fields) ++ "\x7d"
  | v => print v

def spellItems : List Value → List Text
  | [] => []
  | v :: r => spell v :: spellItems r

def spellFields : List (Text × Value) → List Text
  | [] => []
  | (k, v) :: r => printPair (k, spell v) :: spellFields r

end

theorem spellItems_eq_map (items : List Value) : spellItems items = items.map spell := by
  induction items with
  | nil => rfl
  | cons v items ih => rw [spellItems, ih, List.map_cons]

/-- A member as it is written. -/
def spellPair (p : Text × Value) : Text := printPair (p.1, spell p.2)

theorem spellFields_eq_map (fields : List (Text × Value)) : spellFields fields = fields.map spellPair := by
  induction fields with
  | nil => rfl
  | cons p fields ih => rw [spellFields, ih, List.map_cons, spellPair]

/-- What may follow a value: nothing, or the end or the rest of a list or a map. -/
def Closes (r : Text) : Prop :=
  ∀ c ∈ r.head?, c = CodePoint.ofChar ',' ∨ c = CodePoint.ofChar ']' ∨ c = CodePoint.ofChar '\x7d'

/-- A text that spells a value, on one line and whatever follows it. -/
structure Spells (t : Text) (v : Value) : Prop where
  reads : ∀ {depth : Nat} {r : Text}, t.length ≤ depth + 1 → Closes r →
    readValue (depth + 1) (t ++ r) = .ok (v, r)
  starts : ∃ c s, t = c :: s ∧ 0x20 < c.val ∧ c.val ≤ 0x7E ∧ c ≠ ']'
  ascii : t.Ascii

theorem spells_text {t : Text} (h : t.Whole) : Spells (printText t) (.text t) := by
  refine ⟨@fun depth r _ _ => ?_, ⟨_, _, rfl, by decide, by decide, by decide⟩, printText_ascii t⟩
  rw [printText_append, readValue, if_pos rfl, readString_printed h r]
  rfl

theorem spells_null : Spells "null" .null :=
  ⟨fun _ _ => rfl, ⟨_, _, rfl, by decide, by decide, by decide⟩, by decide⟩

theorem spells_bool (b : Bool) : Spells (print (.bool b)) (.bool b) := by
  cases b with
  | false => exact ⟨fun _ _ => rfl, ⟨_, _, rfl, by decide, by decide, by decide⟩, by decide⟩
  | true => exact ⟨fun _ _ => rfl, ⟨_, _, rfl, by decide, by decide, by decide⟩, by decide⟩

section Number

variable {c : CodePoint} {s r : Text}

theorem not_isAsciiDigit_head (h : Closes r) : ∀ c ∈ r.head?, c.isAsciiDigit = false := by
  intro c hc
  rcases h c hc with rfl | rfl | rfl <;> rfl

theorem wholePart?_ofNat (n : Nat) (h : Closes r) :
    wholePart? (Text.ofNat n ++ r) = some (Text.ofNat n, r) := by
  obtain ⟨c, s, heq, hc, hzero⟩ := Text.ofNat_eq_cons n
  have hdigits : ∀ d ∈ Text.ofNat n, d.isAsciiDigit = true := fun d hd =>
    Text.isAsciiDigit_of_mem_ofNat hd
  have hsplit := Text.run_append hdigits (not_isAsciiDigit_head h)
  rw [heq, List.cons_append] at hsplit ⊢
  by_cases h0 : c = CodePoint.ofChar '0'
  · rw [wholePart?, if_pos h0, hzero h0]
    rfl
  · rw [wholePart?, if_neg h0, if_pos hc, hsplit.1, hsplit.2]

theorem fractionPart_closes (h : Closes r) : fractionPart r = ([], r) := by
  unfold fractionPart
  split
  · next p d r' =>
    have hp : p ≠ CodePoint.ofChar '.' := by
      rcases h p rfl with rfl | rfl | rfl <;> decide
    rw [if_neg fun hd => hp hd.1]
  · rfl

theorem exponentPart_closes (h : Closes r) : exponentPart r = (none, r) := by
  unfold exponentPart
  split
  · next e r' =>
    have he : ¬(e = CodePoint.ofChar 'e' ∨ e = CodePoint.ofChar 'E') := by
      rcases h e rfl with rfl | rfl | rfl <;> decide
    rw [if_neg he]
  · rfl

theorem readNumber_ofInt {n : Int} (hn : n.natAbs < 10 ^ Numeral.digitLimit) (h : Closes r) :
    readNumber (Text.ofInt n ++ r) = .ok (.int n, r) := by
  have hlen (k : Nat) (hk : k < 10 ^ Numeral.digitLimit) :
      ¬Numeral.digitLimit < (Text.ofNat k).length :=
    Nat.not_lt.2 (Text.length_ofNat_le (by decide) hk)
  cases n with
  | ofNat k =>
    obtain ⟨c, s, heq, hc, -⟩ := Text.ofNat_eq_cons k
    have hsign : (Text.ofNat k ++ r).head? ≠ some (CodePoint.ofChar '-') := by
      rw [heq]
      rintro ⟨⟩
      cases hc
    simp only [Text.ofInt, readNumber, hsign, decide_false, if_false, wholePart?_ofNat k h,
      fractionPart_closes h, exponentPart_closes h, List.isEmpty_nil,
      Option.isNone_none, Bool.and_self, if_true, hlen k hn, Text.valueOf_ofNat]
    rfl
  | negSucc k =>
    simp only [Text.ofInt, readNumber, List.cons_append, List.head?_cons, decide_true, if_true,
      List.drop_one, List.tail_cons, wholePart?_ofNat (k + 1) h, fractionPart_closes h,
      exponentPart_closes h, List.isEmpty_nil, Option.isNone_none, Bool.and_self, hlen (k + 1) hn,
      if_false, Text.valueOf_ofNat]
    rfl

theorem words_start {w : Text × Value} (h : w ∈ words) :
    ∃ d e t, w.1 = d :: e :: t ∧ d.isAsciiDigit = false ∧ e.isAsciiDigit = false := by
  simp only [words, List.mem_cons, List.not_mem_nil, or_false] at h
  rcases h with rfl | rfl | rfl | rfl | rfl | rfl <;> exact ⟨_, _, _, rfl, rfl, rfl⟩

/-- No word begins with a digit, and none with a digit after a minus sign. -/
theorem readWord?_number (h : c.isAsciiDigit = true) (hs : s = c :: r ∨ ∃ d, s = d :: c :: r) :
    readWord? s = none := by
  refine List.findSome?_eq_none_iff.2 fun w hw => Option.map_eq_none_iff.2 ?_
  obtain ⟨d, e, t, hwt, hd, he⟩ := words_start hw
  cases hafter : w.1.after? s with
  | none => rfl
  | some rest =>
    rw [Text.after?_eq_some_iff, hwt] at hafter
    subst hafter
    rcases hs with hs | ⟨d', hs⟩
    · cases hs
      simp [hd] at h
    · cases hs
      simp [he] at h

theorem isAsciiDigit_range (h : c.isAsciiDigit = true) : 0x30 ≤ c.val ∧ c.val ≤ 0x39 := by
  simpa [CodePoint.isAsciiDigit] using h

theorem ofNat_ascii (n : Nat) : (Text.ofNat n).Ascii := by
  intro c hc
  obtain ⟨hlo, hhi⟩ := isAsciiDigit_range (Text.isAsciiDigit_of_mem_ofNat hc)
  omega

theorem readValue_number {depth : Nat} (hq : c ≠ '"') (hb : c ≠ '\x7b') (hl : c ≠ '[')
    (hw : readWord? (c :: s) = none) : readValue (depth + 1) (c :: s) = readNumber (c :: s) := by
  rw [readValue, if_neg hq, if_neg hb, if_neg hl, hw]

theorem spells_int {n : Int} (h : n.natAbs < 10 ^ Numeral.digitLimit) :
    Spells (Text.ofInt n) (.int n) := by
  cases n with
  | ofNat k =>
    obtain ⟨c, s, heq, hc, -⟩ := Text.ofNat_eq_cons k
    obtain ⟨hlo, hhi⟩ := isAsciiDigit_range hc
    have hne (d : CodePoint) (hd : d.isAsciiDigit = false) : c ≠ d := by
      rintro rfl
      simp [hd] at hc
    refine ⟨@fun depth r _ hr => ?_, ⟨c, s, heq, by omega, by omega, hne _ rfl⟩, ofNat_ascii k⟩
    have hread := readNumber_ofInt h hr
    rw [Text.ofInt, heq, List.cons_append] at hread ⊢
    rw [readValue_number (hne _ rfl) (hne _ rfl) (hne _ rfl) (readWord?_number hc (.inl rfl)), hread]
  | negSucc k =>
    obtain ⟨c, s, heq, hc, -⟩ := Text.ofNat_eq_cons (k + 1)
    have hascii : (Text.ofInt (.negSucc k)).Ascii :=
      List.forall_mem_cons.2 ⟨by decide, ofNat_ascii (k + 1)⟩
    refine ⟨@fun depth r _ hr => ?_, ⟨_, _, rfl, by decide, by decide, by decide⟩, hascii⟩
    have hread := readNumber_ofInt h hr
    rw [Text.ofInt, heq, List.cons_append, List.cons_append] at hread ⊢
    rw [readValue_number (by decide) (by decide) (by decide)
      (readWord?_number hc (.inr ⟨_, rfl⟩)), hread]

end Number

section Containers

variable {t k r s : Text} {v : Value} {depth : Nat}

theorem skipBlanks_cons {c : CodePoint} (h : 0x20 < c.val) : skipBlanks (c :: s) = c :: s := by
  refine List.dropWhile_cons_of_neg ?_
  have hne (d : CodePoint) (hd : d.val ≤ 0x20) : c ≠ d := by
    rintro rfl
    omega
  simp [isBlank, hne ' ' (by decide), hne '\t' (by decide), hne '\n' (by decide), hne '\r' (by decide)]

theorem skipBlanks_space (s : Text) : skipBlanks (CodePoint.ofChar ' ' :: s) = skipBlanks s := rfl

theorem Spells.skipBlanks_append (h : Spells t v) (r : Text) : skipBlanks (t ++ r) = t ++ r := by
  obtain ⟨c, s, rfl, hc, -⟩ := h.starts
  exact skipBlanks_cons hc

theorem Spells.readValue_append (h : Spells t v) (hd : t.length ≤ depth) (hr : Closes r) :
    readValue depth (t ++ r) = .ok (v, r) := by
  obtain ⟨c, s, hcs, -⟩ := h.starts
  cases depth with
  | zero => simp [hcs] at hd
  | succ depth => exact h.reads hd hr

theorem readItems_last (h : Spells t v) (hd : t.length ≤ depth) :
    readItems (depth + 1) (t ++ CodePoint.ofChar ']' :: r) = .ok ([v], r) := by
  have hcloses : Closes (CodePoint.ofChar ']' :: r) := by simp [Closes]
  rw [readItems, h.readValue_append hd hcloses]
  rfl

theorem readItems_more (h : Spells t v) (hd : t.length ≤ depth) :
    readItems (depth + 1) (t ++ CodePoint.ofChar ',' :: s) =
      (readItems depth (skipBlanks s)).map fun p => (v :: p.1, p.2) := by
  have hcloses : Closes (CodePoint.ofChar ',' :: s) := by simp [Closes]
  rw [readItems, h.readValue_append hd hcloses]
  rfl

theorem printPair_append (k t r : Text) :
    printPair (k, t) ++ r = CodePoint.ofChar '"' :: (k.flatMap escaped ++ CodePoint.ofChar '"' ::
      CodePoint.ofChar ':' :: CodePoint.ofChar ' ' :: (t ++ r)) := by
  rw [printPair, List.append_assoc, List.append_assoc, printText_append]
  rfl

theorem readMembers_last (hk : k.Whole) (h : Spells t v) (hd : t.length ≤ depth) :
    readMembers (depth + 1) (printPair (k, t) ++ CodePoint.ofChar '\x7d' :: r) = .ok ([(k, v)], r) := by
  have hcloses : Closes (CodePoint.ofChar '\x7d' :: r) := by simp [Closes]
  rw [printPair_append, readMembers, if_pos rfl, readString_printed hk]
  show (readValue depth (skipBlanks (t ++ CodePoint.ofChar '\x7d' :: r)) >>= _) = _
  rw [h.skipBlanks_append, h.readValue_append hd hcloses]
  rfl

theorem readMembers_more (hk : k.Whole) (h : Spells t v) (hd : t.length ≤ depth) :
    readMembers (depth + 1) (printPair (k, t) ++ CodePoint.ofChar ',' :: s) =
      (readMembers depth (skipBlanks s)).map fun p => ((k, v) :: p.1, p.2) := by
  have hcloses : Closes (CodePoint.ofChar ',' :: s) := by simp [Closes]
  rw [printPair_append, readMembers, if_pos rfl, readString_printed hk]
  show (readValue depth (skipBlanks (t ++ CodePoint.ofChar ',' :: s)) >>= _) = _
  rw [h.skipBlanks_append, h.readValue_append hd hcloses]
  rfl

theorem unlines_start {p : CodePoint → Prop} (h : ∃ c s, t = c :: s ∧ p c) (ts : List Text) :
    ∃ c s, Text.unlines ", " (t :: ts) = c :: s ∧ p c := by
  obtain ⟨c, s, rfl, hc⟩ := h
  cases ts with
  | nil => exact ⟨c, s, Text.unlines_singleton .., hc⟩
  | cons u ts =>
    rw [Text.unlines_cons_cons, List.cons_append, List.cons_append]
    exact ⟨c, _, rfl, hc⟩

theorem skipBlanks_unlines {ts : List Text} (h : ∃ c s, t = c :: s ∧ 0x20 < c.val) (r : Text) :
    skipBlanks (Text.unlines ", " (t :: ts) ++ r) = Text.unlines ", " (t :: ts) ++ r := by
  obtain ⟨c, s, heq, hc⟩ := unlines_start h ts
  rw [heq]
  exact skipBlanks_cons hc

theorem Spells.start (h : Spells t v) : ∃ c s, t = c :: s ∧ 0x20 < c.val := by
  obtain ⟨c, s, heq, hc, -⟩ := h.starts
  exact ⟨c, s, heq, hc⟩

theorem unlines_comma_append (t u r : Text) (ts : List Text) :
    Text.unlines ", " (t :: u :: ts) ++ r =
      t ++ CodePoint.ofChar ',' :: CodePoint.ofChar ' ' :: (Text.unlines ", " (u :: ts) ++ r) := by
  rw [Text.unlines_cons_cons, List.append_assoc, List.append_assoc]
  rfl

/-- Readers of the items of a list and of the members of a map go on in the same way: what is written
with commas between is read, through the closing bracket, one after the other. -/
theorem read_unlines {β : Type} {read : Nat → Text → Except Fault (List β × Text)} {write : β → Text}
    {bracket : CodePoint} {bs : List β} (hne : bs ≠ [])
    (last : ∀ b ∈ bs, ∀ depth r, (write b).length ≤ depth →
      read (depth + 1) (write b ++ bracket :: r) = .ok ([b], r))
    (more : ∀ b ∈ bs, ∀ depth s, (write b).length ≤ depth →
      read (depth + 1) (write b ++ CodePoint.ofChar ',' :: s) =
        (read depth (skipBlanks s)).map fun p => (b :: p.1, p.2))
    (start : ∀ b ∈ bs, ∃ c s, write b = c :: s ∧ 0x20 < c.val)
    (hd : (Text.unlines ", " (bs.map write)).length ≤ depth) :
    read (depth + 1) (Text.unlines ", " (bs.map write) ++ bracket :: r) = .ok (bs, r) := by
  induction bs generalizing depth with
  | nil => exact absurd rfl hne
  | cons a bs ih =>
    cases bs with
    | nil =>
      rw [List.map_cons, List.map_nil, Text.unlines_singleton] at hd ⊢
      exact last a (by simp) depth r hd
    | cons b bs =>
      have hlen := congrArg List.length (unlines_comma_append (write a) (write b) [] (bs.map write))
      simp only [List.append_nil, List.length_append, List.length_cons] at hlen
      rw [List.map_cons, List.map_cons] at hd ⊢
      obtain ⟨depth, rfl⟩ : ∃ d, depth = d + 1 := ⟨depth - 1, by omega⟩
      have hshorter : (Text.unlines ", " ((b :: bs).map write)).length ≤ depth := by
        rw [List.map_cons]
        omega
      have hrest := ih (by simp) (fun c hc => last c (by simp [hc])) (fun c hc => more c (by simp [hc]))
        (fun c hc => start c (by simp [hc])) hshorter
      rw [List.map_cons] at hrest
      rw [unlines_comma_append, more a (by simp) _ _ (by omega), skipBlanks_space,
        skipBlanks_unlines (start b (by simp)), hrest]
      rfl

theorem readItems_unlines {items : List Value} (hne : items ≠ [])
    (h : ∀ v ∈ items, Spells (spell v) v)
    (hd : (Text.unlines ", " (items.map spell)).length ≤ depth) :
    readItems (depth + 1) (Text.unlines ", " (items.map spell) ++ CodePoint.ofChar ']' :: r) =
      .ok (items, r) :=
  read_unlines hne (fun v hv _ _ hd => readItems_last (h v hv) hd)
    (fun v hv _ _ hd => readItems_more (h v hv) hd) (fun v hv => (h v hv).start) hd

theorem spellPair_quote (p : Text × Value) :
    ∃ c s, spellPair p = c :: s ∧ c = CodePoint.ofChar '"' := ⟨_, _, rfl, rfl⟩

theorem length_spell_le (p : Text × Value) : (spell p.2).length ≤ (spellPair p).length := by
  rw [spellPair, printPair, List.length_append]
  exact Nat.le_add_left ..

theorem readMembers_unlines {fields : List (Text × Value)} (hne : fields ≠ [])
    (hk : ∀ p ∈ fields, p.1.Whole) (h : ∀ p ∈ fields, Spells (spell p.2) p.2)
    (hd : (Text.unlines ", " (fields.map spellPair)).length ≤ depth) :
    readMembers (depth + 1) (Text.unlines ", " (fields.map spellPair) ++ CodePoint.ofChar '\x7d' :: r) =
      .ok (fields, r) :=
  read_unlines hne
    (fun p hp _ _ hd => readMembers_last (hk p hp) (h p hp) ((length_spell_le p).trans hd))
    (fun p hp _ _ hd => readMembers_more (hk p hp) (h p hp) ((length_spell_le p).trans hd))
    (fun _ _ => ⟨_, _, rfl, by decide⟩) hd

theorem unlines_ascii {ts : List Text} (h : ∀ t ∈ ts, t.Ascii) : (Text.unlines ", " ts).Ascii := by
  induction ts with
  | nil => simp [Text.unlines, Text.Ascii]
  | cons t ts ih =>
    have ht := h t (by simp)
    cases ts with
    | nil => rwa [Text.unlines_singleton]
    | cons u ts =>
      have hrest := ih fun t' h' => h t' (by simp [h'])
      have hcomma : (Text.ofString ", ").Ascii := by decide
      rw [Text.unlines_cons_cons]
      exact (ht.append hcomma).append hrest

theorem readValue_items {c : CodePoint} (h : 0x20 < c.val) (hc : c ≠ ']') :
    readValue (depth + 1) (CodePoint.ofChar '[' :: c :: s) =
      (readItems depth (c :: s)).map fun p => (.list p.1, p.2) := by
  rw [readValue, if_neg (by decide), if_neg (by decide), if_pos rfl, skipBlanks_cons h, closes?,
    if_neg hc]

theorem readValue_members {c : CodePoint} (h : 0x20 < c.val) (hc : c ≠ '\x7d') :
    readValue (depth + 1) (CodePoint.ofChar '\x7b' :: c :: s) =
      (readMembers depth (c :: s)).map fun p => (.map (Fields.ofList p.1), p.2) := by
  rw [readValue, if_neg (by decide), if_pos rfl, skipBlanks_cons h, closes?, if_neg hc]

theorem bracket_append (a b : CodePoint) (t r : Text) : [a] ++ t ++ [b] ++ r = a :: (t ++ b :: r) := by
  simp

theorem spells_list {items : List Value} (h : ∀ v ∈ items, Spells (spell v) v) :
    Spells (spell (.list items)) (.list items) := by
  have hascii : ∀ t ∈ items.map spell, t.Ascii := by
    intro t ht
    obtain ⟨v, hv, rfl⟩ := List.mem_map.1 ht
    exact (h v hv).ascii
  rw [spell, spellItems_eq_map]
  refine ⟨@fun depth r hd _ => ?_, ⟨_, _, rfl, by decide, by decide, by decide⟩,
    (Text.Ascii.append (by decide) (unlines_ascii hascii)).append (by decide)⟩
  have hlen : (Text.unlines ", " (items.map spell)).length + 2 ≤ depth + 1 := by
    simpa [Text.ofString] using hd
  -- one step of the depth is spent on the list, and its two brackets pay for it
  obtain ⟨depth, rfl⟩ : ∃ d, depth = d + 1 := ⟨depth - 1, by omega⟩
  refine (congrArg (readValue _) (bracket_append '[' ']' _ r)).trans ?_
  cases items with
  | nil => rfl
  | cons v items =>
    have hread : readItems (depth + 1)
        (Text.unlines ", " ((v :: items).map spell) ++ CodePoint.ofChar ']' :: r) = .ok (v :: items, r) :=
      readItems_unlines (by simp) h (by omega)
    obtain ⟨c, s, hstart, hc, -, hclose⟩ := unlines_start (h v (by simp)).starts (items.map spell)
    rw [List.map_cons, hstart, List.cons_append] at hread
    rw [List.map_cons, hstart, List.cons_append, readValue_items hc hclose, hread]
    rfl

theorem spells_map {fields : Fields} (hn : fields.keys.Nodup) (hk : ∀ p ∈ fields, p.1.Whole)
    (h : ∀ p ∈ fields, Spells (spell p.2) p.2) : Spells (spell (.map fields)) (.map fields) := by
  have hascii : ∀ t ∈ fields.map spellPair, t.Ascii := by
    intro t ht
    obtain ⟨p, hp, rfl⟩ := List.mem_map.1 ht
    exact ((printText_ascii p.1).append (by decide)).append (h p hp).ascii
  rw [spell, spellFields_eq_map]
  refine ⟨@fun depth r hd _ => ?_, ⟨_, _, rfl, by decide, by decide, by decide⟩,
    (Text.Ascii.append (by decide) (unlines_ascii hascii)).append (by decide)⟩
  have hlen : (Text.unlines ", " (fields.map spellPair)).length + 2 ≤ depth + 1 := by
    simpa [Text.ofString] using hd
  obtain ⟨depth, rfl⟩ : ∃ d, depth = d + 1 := ⟨depth - 1, by omega⟩
  refine (congrArg (readValue _) (bracket_append '\x7b' '\x7d' _ r)).trans ?_
  cases fields with
  | nil => rfl
  | cons p fields =>
    have hread : readMembers (depth + 1)
        (Text.unlines ", " ((p :: fields).map spellPair) ++ CodePoint.ofChar '\x7d' :: r) =
          .ok (p :: fields, r) :=
      readMembers_unlines (by simp) hk h (by omega)
    obtain ⟨c, s, hstart, rfl⟩ := unlines_start (spellPair_quote p) (fields.map spellPair)
    rw [List.map_cons, hstart, List.cons_append] at hread
    rw [List.map_cons, hstart, List.cons_append, readValue_members (by decide) (by decide), hread]
    exact congrArg (fun fields => Except.ok (Value.map fields, r)) (Fields.ofList_of_nodup hn)

end Containers

theorem spells_spell {v : Value} (h : v.Plain) : Spells (spell v) v := by
  induction h with
  | null => exact spells_null
  | bool b => exact spells_bool b
  | int h => exact spells_int h
  | text h => exact spells_text h
  | list _ ih => exact spells_list ih
  | map hn hk _ ih => exact spells_map hn hk ih

/-- A plain value is read back from what is written for it. -/
theorem read_spell {v : Value} (h : v.Plain) : read (spell v) = .ok v := by
  have hs := spells_spell h
  obtain ⟨c, s, heq, hlo, hhi, -⟩ := hs.starts
  have hmark : (spell v).head? ≠ some (CodePoint.ofNat 0xFEFF) := by
    rw [heq]
    rintro ⟨⟩
    revert hhi
    decide
  have hskip := hs.skipBlanks_append []
  -- the depth that `read` sets out with
  have hread := hs.readValue_append (show (spell v).length ≤ 2 * (spell v).length + 1 by omega)
    (show Closes [] by simp [Closes])
  rw [List.append_nil] at hskip hread
  rw [read, if_neg hmark, hskip, hread]
  rfl

end Json

end TreePlan
