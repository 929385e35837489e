import Mathlib
import TreePlan.Proofs.Fields
import TreePlan.Proofs.Layout.Nesting

/-! What can be read off the entries of a layout that has been read. There is one for each line that is
neither blank nor a comment, their levels are those of a tree, and what each entry says is consistent. -/

namespace TreePlan

/-- What an entry says is consistent. -/
structure Entry.WellFormed (e : Entry) : Prop where
  name : IsName e.name
  link : e.isDirectory = true → e.target = none
  target : e.target ≠ some []
  content : e.isDirectory = true → e.content = none
  modeText : ∀ d ∈ e.modeText, IsMode d
  mode : e.mode = e.modeText.map fun d => (Text.octalValue d : Int)
  owner : ∀ t ∈ e.owner, IsOwner t
  group : ∀ t ∈ e.group, IsOwner t
  unowned : e.modeText = none → e.owner = none ∧ e.group = none
  extras : Text.ofString "content" ∉ e.extras.keys
  keys : e.extras.keys.Nodup

instance (e : Entry) : Decidable e.WellFormed :=
  decidable_of_iff (IsName e.name ∧ (e.isDirectory = true → e.target = none) ∧ e.target ≠ some [] ∧
      (e.isDirectory = true → e.content = none) ∧ (∀ d ∈ e.modeText, IsMode d) ∧
      (e.mode = e.modeText.map fun d => (Text.octalValue d : Int)) ∧ (∀ t ∈ e.owner, IsOwner t) ∧
      (∀ t ∈ e.group, IsOwner t) ∧ (e.modeText = none → e.owner = none ∧ e.group = none) ∧
      Text.ofString "content" ∉ e.extras.keys ∧ e.extras.keys.Nodup)
    ⟨fun ⟨h₁, h₂, h₃, h₄, h₅, h₆, h₇, h₈, h₉, h₁₀, h₁₁⟩ => ⟨h₁, h₂, h₃, h₄, h₅, h₆, h₇, h₈, h₉, h₁₀, h₁₁⟩,
      fun ⟨h₁, h₂, h₃, h₄, h₅, h₆, h₇, h₈, h₉, h₁₀, h₁₁⟩ => ⟨h₁, h₂, h₃, h₄, h₅, h₆, h₇, h₈, h₉, h₁₀, h₁₁⟩⟩

namespace Layout

variable {s r source text : Text} {es : List Entry} {e : Entry} {strict isDirectory : Bool}

theorem isSkipped_iff (line : Text) :
    isSkipped line = true ↔ (∀ c ∈ line, c.isBlank = true) ∨
      ∃ blanks rest, line = blanks ++ CodePoint.ofChar '#' :: rest ∧ ∀ c ∈ blanks, c.isBlank = true := by
  have hhash : (CodePoint.ofChar '#').isBlank = false := by decide
  have hempty : line.dropBlanks = [] ↔ ∀ c ∈ line, c.isBlank = true := List.dropWhile_eq_nil_iff
  unfold isSkipped
  rw [Bool.or_eq_true, List.isEmpty_iff, hempty]
  refine or_congr_right ⟨fun h => ?_, ?_⟩
  · obtain ⟨rest, hrest⟩ := List.isPrefixOf_iff_prefix.1 h
    refine ⟨line.leadingBlanks, rest, ?_, fun c hc => List.mem_takeWhile_imp hc⟩
    have hline := (Text.leadingBlanks_append_dropBlanks line).symm
    rwa [← hrest] at hline
  · rintro ⟨blanks, rest, rfl, hb⟩
    have hdrop : Text.dropBlanks (blanks ++ CodePoint.ofChar '#' :: rest) = CodePoint.ofChar '#' :: rest :=
      Text.dropWhile_append_cons hb hhash
    rw [hdrop]
    rfl

theorem readTarget?_ok {target : Option Text} (h : readTarget? isDirectory s = .ok (target, r)) :
    (isDirectory = true → target = none) ∧ target ≠ some [] := by
  unfold readTarget? at h
  split at h
  · cases h
    simp
  · split at h
    · cases h
    · next hd =>
      obtain ⟨⟨t, r'⟩, -, h⟩ := bind_eq_ok_iff.1 h
      dsimp only at h
      split at h
      · cases h
      · next ht =>
        cases h
        exact ⟨fun h => absurd h hd, by simpa using ht⟩

theorem readExtras_nodup {extras : Fields} (h : readExtras s = .ok extras) : extras.keys.Nodup := by
  unfold readExtras at h
  dsimp only at h
  split at h
  · cases h
  · split at h
    · cases h
      simp [Fields.keys]
    · unfold Token.decodeExtras at h
      split at h
      · next hread =>
        cases h
        exact Json.nodup_keys_of_read hread
      · cases h
      · cases h

theorem contentOf_ok {extras : Fields} {content : Option Text}
    (h : contentOf isDirectory extras = .ok content) : isDirectory = true → content = none := by
  intro hd
  unfold contentOf at h
  split at h
  · cases h
    rfl
  · rw [if_pos hd] at h
    cases h

theorem readSpec_wellFormed {level line : Nat} (hn : CodePoint.ofChar '\n' ∉ s)
    (h : readSpec strict level line s = .ok e) : e.WellFormed ∧ e.line = line := by
  obtain ⟨⟨permission, members, s₁, s₂, s₃, hread⟩, -, hline⟩ := readSpec_ok h
  have hsuffix : (readSlash s₁).2 <:+ s := (readSlash_suffix s₁).trans (readName_suffix hread.name)
  have hperm := readPermission?_ok hread.block
  obtain ⟨hlink, htarget⟩ := readTarget?_ok hread.target
  have howner {p : Permission} {t : Text} (hp : permission = some p)
      (ht : p.owner = some t ∨ p.group = some t) : IsOwner t := by
    obtain ⟨hne, hcomma, hsub⟩ := (hperm p hp).2.2 t ht
    exact ⟨hne, hcomma, fun hm => hn (hsuffix.subset (hsub hm))⟩
  refine ⟨⟨readName_isName hread.name, hlink, htarget, contentOf_ok hread.content, ?_, ?_, ?_, ?_, ?_,
    ?_, ?_⟩, hline⟩
  · intro d hd
    rw [hread.modeText] at hd
    obtain ⟨p, hp, rfl⟩ := Option.map_eq_some_iff.1 hd
    exact (hperm p hp).1
  · rw [hread.mode, hread.modeText]
    cases permission with
    | none => rfl
    | some p => exact congrArg (fun n : Nat => some (n : Int)) (hperm p rfl).2.1
  · intro t ht
    rw [hread.owner] at ht
    obtain ⟨p, hp, ht⟩ := Option.bind_eq_some_iff.1 ht
    exact howner hp (.inl ht)
  · intro t ht
    rw [hread.group] at ht
    obtain ⟨p, hp, ht⟩ := Option.bind_eq_some_iff.1 ht
    exact howner hp (.inr ht)
  · intro hnone
    rw [hread.modeText] at hnone
    have hp : permission = none := Option.map_eq_none_iff.1 hnone
    rw [hread.owner, hread.group, hp]
    exact ⟨rfl, rfl⟩
  · rw [hread.extras, Fields.keys_erase]
    simp
  · rw [hread.extras, Fields.keys_erase]
    exact (readExtras_nodup hread.body).filter _

/-- The numbers of the lines that make entries, counted from one for the first line. -/
def entryLines (first : Nat) (lines : List Text) : List Nat :=
  ((lines.zipIdx first).filter fun p => !isSkipped p.1).map Prod.snd

theorem readLines_wellFormed {line : Nat} {ctx : Context} {lines : List Text}
    (hn : ∀ source ∈ lines, CodePoint.ofChar '\n' ∉ source)
    (h : readLines strict line ctx lines = .ok es) :
    es.map Entry.line = entryLines line lines ∧ ∀ e ∈ es, e.WellFormed := by
  induction lines generalizing line ctx es with
  | nil =>
    cases h
    simp [entryLines]
  | cons source rest ih =>
    have hrest : ∀ source ∈ rest, CodePoint.ofChar '\n' ∉ source := fun t ht => hn t (by simp [ht])
    rw [readLines] at h
    rw [entryLines, List.zipIdx_cons, List.filter_cons]
    split at h
    · next hs =>
      rw [if_neg (by simp [hs])]
      exact ih hrest h
    · next hs =>
      rw [if_pos (by simp [hs]), List.map_cons]
      split at h
      · cases h
      · next e ctx' he =>
        obtain ⟨es', hes, rfl⟩ := map_eq_ok_iff.1 h
        obtain ⟨indents, -, he⟩ := bind_eq_ok_iff.1 he
        obtain ⟨e', hread, hp⟩ := bind_eq_ok_iff.1 he
        cases hp
        have hspec : CodePoint.ofChar '\n' ∉ source.dropBlanks := fun hm =>
          hn source (by simp) ((List.dropWhile_suffix _).subset hm)
        obtain ⟨hwell, hline⟩ := readSpec_wellFormed hspec hread
        obtain ⟨hlines, hall⟩ := ih hrest hes
        refine ⟨?_, List.forall_mem_cons.2 ⟨hwell, hall⟩⟩
        rw [List.map_cons, hline, hlines]
        rfl

/-- The lines that are passed over are those that are blank and those whose first character that is not
blank is a hash sign. Each other line makes one entry, and the entries are well-formed. -/
theorem parse_wellFormed (h : parse strict text = .ok es) :
    es.map Entry.line = entryLines 1 (Text.splitOn '\n' text) ∧
      (∀ line, isSkipped line = true ↔ (∀ c ∈ line, c.isBlank = true) ∨
        ∃ blanks rest, line = blanks ++ CodePoint.ofChar '#' :: rest ∧
          ∀ c ∈ blanks, c.isBlank = true) ∧
      Nested es ∧ ∀ e ∈ es, e.WellFormed ∧ ∀ m ∈ e.mode, 0 ≤ m ∧ m ≤ 4095 := by
  have hnewline : ∀ line ∈ Text.splitOn '\n' text, CodePoint.ofChar '\n' ∉ line :=
    fun line hline => Text.notMem_of_mem_splitOn hline
  obtain ⟨hlines, hwell⟩ := readLines_wellFormed hnewline h
  refine ⟨hlines, isSkipped_iff, parse_nested h, fun e he => ⟨hwell e he, fun m hm => ?_⟩⟩
  obtain ⟨h0, hlt⟩ := (parse_isSound h e he).mode m hm
  exact ⟨h0, by omega⟩

/-- A comment, blank lines, a quoted name, owners, a symlink and extras. -/
def plotText : Text :=
  "# plan\n\nsrc/(root,,750)\n  \"a b\" \"content\":\"x\"\n \n  l(,,644)->../t \"k\":[1]\nREADME"

def plotEntries : List Entry :=
  [{ name := "src", level := 0, line := 3, isDirectory := true, mode := some 0o750
     modeText := some "750", owner := some "root" },
    { name := "a b", level := 1, line := 4, content := some "x" },
    { name := "l", level := 1, line := 6, target := some "../t", mode := some 0o644
      modeText := some "644", extras := [("k", .list [.int 1])] },
    { name := "README", level := 0, line := 7 }]

theorem wellFormed_plot :
    parse false plotText = .ok plotEntries ∧
      entryLines 1 (Text.splitOn '\n' plotText) = [3, 4, 6, 7] ∧
      ∀ e ∈ plotEntries, e.WellFormed ∧ ∀ m ∈ e.mode, 0 ≤ m ∧ m ≤ 4095 := by
  have hparse : parse false plotText = .ok plotEntries := by cbv
  obtain ⟨hlines, -, -, hwell⟩ := parse_wellFormed hparse
  exact ⟨hparse, hlines.symm, hwell⟩

end Layout

end TreePlan
