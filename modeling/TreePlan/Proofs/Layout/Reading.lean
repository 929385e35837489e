import TreePlan.Layout.Parse
import TreePlan.Proofs.Json.Literal
import TreePlan.Proofs.Path.Name
import TreePlan.Proofs.Text.Numeral
import TreePlan.Proofs.Text.Scanning

/-! What the readers of a line take from it and what they leave, which is always its end. A permission
block is read just when the text begins with one, and its parts are what stands between its commas. -/

namespace TreePlan

namespace Text

/-- The number that digits in base eight write. -/
def octalValue (d : Text) : Nat := Nat.ofDigits 8 (d.reverse.map fun c => c.val - 0x30)

end Text

/-- Three or four digits in base eight. -/
structure IsMode (d : Text) : Prop where
  length : d.length = 3 ∨ d.length = 4
  octal : ∀ c ∈ d, 0x30 ≤ c.val ∧ c.val ≤ 0x37

instance (d : Text) : Decidable (IsMode d) :=
  decidable_of_iff ((d.length = 3 ∨ d.length = 4) ∧ d.all (fun c => 0x30 ≤ c.val && c.val ≤ 0x37) = true)
    ⟨fun ⟨hlen, hall⟩ => ⟨hlen, by simpa using hall⟩, fun ⟨hlen, hall⟩ => ⟨hlen, by simpa using hall⟩⟩

/-- What a user or a group is called in a permission block. -/
structure IsOwner (t : Text) : Prop where
  ne_nil : t ≠ []
  no_comma : CodePoint.ofChar ',' ∉ t
  no_newline : CodePoint.ofChar '\n' ∉ t

instance (t : Text) : Decidable (IsOwner t) :=
  decidable_of_iff (t.isEmpty = false ∧ t.contains (CodePoint.ofChar ',') = false ∧
      t.contains (CodePoint.ofChar '\n') = false)
    ⟨fun ⟨hne, hcomma, hline⟩ => ⟨by simpa using hne, by simpa using hcomma, by simpa using hline⟩,
      fun ⟨hne, hcomma, hline⟩ => ⟨by simpa using hne, by simpa using hcomma, by simpa using hline⟩⟩

theorem Text.octalValue_lt {d : Text} (h : IsMode d) : d.octalValue < 4096 := by
  have hdigits : ∀ k ∈ d.reverse.map fun c => c.val - 0x30, k < 8 := by
    intro k hk
    obtain ⟨c, hc, rfl⟩ := List.mem_map.1 hk
    have hc := h.octal c (List.mem_reverse.1 hc)
    omega
  have hlt := Nat.ofDigits_lt_base_pow_length (by decide) hdigits
  have hpow : 8 ^ (d.reverse.map fun c => c.val - 0x30).length ≤ 8 ^ 4 := by
    refine Nat.pow_le_pow_right (by decide) ?_
    rw [List.length_map, List.length_reverse]
    have hlen := h.length
    omega
  exact hlt.trans_le hpow

namespace Token

variable {s t r d label stops : Text}

theorem isOctal_iff {c : CodePoint} : isOctal c = true ↔ 0x30 ≤ c.val ∧ c.val ≤ 0x37 := by
  simp [isOctal]

theorem valueOf_octal (h : IsMode d) : Text.valueOf 8 d = Text.octalValue d := by
  rw [Text.valueOf_eq_ofDigits, Text.octalValue]
  congr 1
  refine List.map_congr_left fun c hc => ?_
  obtain ⟨hlo, hhi⟩ := h.octal c (List.mem_reverse.1 hc)
  have hd : (decide (0x30 ≤ c.val) && decide (c.val ≤ 0x39)) = true := by
    rw [Bool.and_eq_true, decide_eq_true_eq, decide_eq_true_eq]
    omega
  rw [CodePoint.hexDigit?, if_pos hd]
  rfl

theorem nonEmpty?_eq_some_iff {u : Text} : nonEmpty? t = some u ↔ u ≠ [] ∧ t = u := by
  unfold nonEmpty?
  cases t with
  | nil => simp +contextual [eq_comm]
  | cons c t =>
    refine ⟨fun h => ?_, fun h => ?_⟩
    · cases h
      exact ⟨by simp, rfl⟩
    · rw [h.2]
      exact if_neg (by simpa using h.1)

theorem readMode?_eq_some_iff :
    readMode? s = some (d, r) ↔ IsMode d ∧ s = d ++ CodePoint.ofChar ')' :: r := by
  have hclose : isOctal ')' = false := by decide
  refine ⟨fun h => ?_, ?_⟩
  · unfold readMode? at h
    dsimp only at h
    split at h
    · next hlen =>
      obtain ⟨r', hr, he⟩ := Option.map_eq_some_iff.1 h
      cases he
      have hs : s = s.takeWhile isOctal ++ s.dropWhile isOctal := List.takeWhile_append_dropWhile.symm
      rw [Text.after?_eq_some_iff.1 hr] at hs
      exact ⟨⟨hlen, fun c hc => isOctal_iff.1 (List.mem_takeWhile_imp hc)⟩, hs⟩
    · cases h
  · rintro ⟨hd, rfl⟩
    have hoct : ∀ c ∈ d, isOctal c = true := fun c hc => isOctal_iff.2 (hd.octal c hc)
    unfold readMode?
    dsimp only
    rw [Text.takeWhile_append_cons hoct hclose, Text.dropWhile_append_cons hoct hclose,
      if_pos hd.length]
    rfl

theorem readField?_eq_some_iff :
    readField? s = some (t, r) ↔ CodePoint.ofChar ',' ∉ t ∧ s = t ++ CodePoint.ofChar ',' :: r := by
  have hcomma : isField ',' = false := by decide
  have hfield (t : Text) : (∀ c ∈ t, isField c = true) ↔ CodePoint.ofChar ',' ∉ t := by
    simp only [isField, decide_eq_true_eq]
    exact ⟨fun h hm => h _ hm rfl, fun h c hc he => h (he ▸ hc)⟩
  refine ⟨fun h => ?_, ?_⟩
  · obtain ⟨r', hr, he⟩ := Option.map_eq_some_iff.1 h
    cases he
    have hs : s = s.takeWhile isField ++ s.dropWhile isField := List.takeWhile_append_dropWhile.symm
    rw [Text.after?_eq_some_iff.1 hr] at hs
    exact ⟨(hfield _).1 fun c hc => List.mem_takeWhile_imp hc, hs⟩
  · rintro ⟨ht, rfl⟩
    unfold readField?
    rw [Text.takeWhile_append_cons ((hfield t).2 ht) hcomma,
      Text.dropWhile_append_cons ((hfield t).2 ht) hcomma]
    rfl

/-- What a permission block says: a mode, and owners if they are given. -/
theorem readPermission_ok {p : Permission} (h : readPermission s = .ok (p, r)) :
    IsMode p.text ∧ p.mode = Text.octalValue p.text ∧
      ∀ t, p.owner = some t ∨ p.group = some t → t ≠ [] ∧ CodePoint.ofChar ',' ∉ t ∧ t ⊆ s := by
  unfold readPermission at h
  split at h
  · cases h
  · next s' hs =>
    rw [Text.after?_eq_some_iff] at hs
    subst hs
    split at h
    · cases h
    · next q hq =>
      cases h
      -- a mode with owners is tried first, then a mode alone
      rw [Option.orElse_eq_orElse, Option.orElse_eq_or, Option.or_eq_some_iff] at hq
      rcases hq with hq | ⟨-, hq⟩
      · simp only [readOwnedMode?, Option.bind_eq_bind, Option.bind_eq_some_iff] at hq
        obtain ⟨⟨owner, s₁⟩, ho, ⟨group, s₂⟩, hg, ⟨digits, s₃⟩, hm, he⟩ := hq
        cases he
        obtain ⟨hocomma, rfl⟩ := readField?_eq_some_iff.1 ho
        obtain ⟨hgcomma, rfl⟩ := readField?_eq_some_iff.1 hg
        obtain ⟨hmode, rfl⟩ := readMode?_eq_some_iff.1 hm
        refine ⟨hmode, valueOf_octal hmode, fun t ht => ?_⟩
        rcases ht with ht | ht
        · obtain ⟨hne, rfl⟩ := nonEmpty?_eq_some_iff.1 ht
          exact ⟨hne, hocomma, fun c hc => by simp [hc]⟩
        · obtain ⟨hne, rfl⟩ := nonEmpty?_eq_some_iff.1 ht
          exact ⟨hne, hgcomma, fun c hc => by simp [hc]⟩
      · obtain ⟨⟨digits, s₁⟩, hm, he⟩ := Option.map_eq_some_iff.1 hq
        cases he
        obtain ⟨hmode, rfl⟩ := readMode?_eq_some_iff.1 hm
        exact ⟨hmode, valueOf_octal hmode, by simp⟩

theorem readWord_suffix (h : readWord label stops s = .ok (t, r)) : r <:+ s := by
  unfold readWord at h
  split at h
  · unfold readQuoted at h
    split at h
    · cases h
    · next literal rest hl =>
      have hrest : rest <:+ s := by
        cases s with
        | nil => cases hl
        | cons c s =>
          obtain ⟨⟨t', r'⟩, hp, he⟩ := Option.map_eq_some_iff.1 hl
          cases he
          exact ⟨c :: t', congrArg (c :: ·) (throughQuote?_append hp).symm⟩
      split at h
      · cases h
        exact hrest
      · cases h
      · cases h
  · cases h
    exact List.dropWhile_suffix _

end Token

namespace Layout

variable {s r : Text} {strict isDirectory : Bool} {e : Entry}

theorem readName_isName {name : Text} (h : readName s = .ok (name, r)) :
    IsName name := by
  unfold readName at h
  obtain ⟨⟨n, r⟩, -, h⟩ := bind_eq_ok_iff.1 h
  dsimp only at h
  split at h
  · cases h
  · next hne =>
    split at h
    · cases h
    · next hs =>
      split at h
      · cases h
      · next hd =>
        cases h
        rw [not_or] at hd
        exact ⟨by simpa using hne, hd.1, hd.2, by simpa using hs⟩

theorem readName_suffix {name : Text} (h : readName s = .ok (name, r)) : r <:+ s := by
  unfold readName at h
  obtain ⟨⟨n, r'⟩, hword, h⟩ := bind_eq_ok_iff.1 h
  dsimp only at h
  split at h
  · cases h
  · split at h
    · cases h
    · split at h
      · cases h
      · cases h
        exact Token.readWord_suffix hword

theorem readSlash_suffix (s : Text) : (readSlash s).2 <:+ s := by
  unfold readSlash
  split
  · next r h => exact ⟨_, (Text.after?_eq_some_iff.1 h).symm⟩
  · exact List.suffix_refl s

theorem readPermission?_ok {permission : Option Permission}
    (h : readPermission? s = .ok (permission, r)) : ∀ p ∈ permission,
      IsMode p.text ∧ p.mode = Text.octalValue p.text ∧
        ∀ t, p.owner = some t ∨ p.group = some t → t ≠ [] ∧ CodePoint.ofChar ',' ∉ t ∧ t ⊆ s := by
  unfold readPermission? at h
  split at h
  · obtain ⟨⟨q, r'⟩, hq, he⟩ := map_eq_ok_iff.1 h
    cases he
    intro p hp
    cases hp
    exact Token.readPermission_ok hq
  · cases h
    simp

/-- The parts of a line, with what is left of it before each of them, that an entry is put together
from. -/
structure ReadsAs (s : Text) (e : Entry) (permission : Option Permission) (members : Fields)
    (s₁ s₂ s₃ : Text) : Prop where
  name : readName s = .ok (e.name, s₁)
  slash : e.isDirectory = (readSlash s₁).1
  block : readPermission? (readSlash s₁).2 = .ok (permission, s₂)
  target : readTarget? e.isDirectory s₂ = .ok (e.target, s₃)
  body : readExtras s₃ = .ok members
  content : contentOf e.isDirectory members = .ok e.content
  extras : e.extras = members.erase "content"
  mode : e.mode = permission.map fun p => (p.mode : Int)
  modeText : e.modeText = permission.map fun p => p.text
  owner : e.owner = permission.bind fun p => p.owner
  group : e.group = permission.bind fun p => p.group

theorem readSpec_ok {level line : Nat} (h : readSpec strict level line s = .ok e) :
    (∃ permission members s₁ s₂ s₃, ReadsAs s e permission members s₁ s₂ s₃) ∧
      e.level = level ∧ e.line = line := by
  unfold readSpec at h
  obtain ⟨⟨name, s₁⟩, hname, h⟩ := bind_eq_ok_iff.1 h
  dsimp only at h
  obtain ⟨⟨permission, s₂⟩, hperm, h⟩ := bind_eq_ok_iff.1 h
  obtain ⟨⟨target, s₃⟩, htarget, h⟩ := bind_eq_ok_iff.1 h
  obtain ⟨members, hmembers, h⟩ := bind_eq_ok_iff.1 h
  obtain ⟨content, hcontent, h⟩ := bind_eq_ok_iff.1 h
  split at h
  · cases h
  · cases h
    exact ⟨⟨permission, members, s₁, s₂, s₃, hname, rfl, hperm, htarget, hmembers, hcontent, rfl, rfl, rfl,
      rfl, rfl⟩, rfl, rfl⟩

end Layout

end TreePlan
