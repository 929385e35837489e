import TreePlan.Path.Compose

/-! Names and the paths they spell below a root. A path is composed just when each of its segments is
one name, and then it is the root followed by those names. -/

namespace TreePlan

/-- One name in a directory, which leads neither up nor elsewhere. -/
structure IsName (name : Text) : Prop where
  ne_nil : name ≠ []
  ne_dot : name ≠ "."
  ne_dots : name ≠ ".."
  no_slash : CodePoint.ofChar '/' ∉ name

instance (name : Text) : Decidable (IsName name) :=
  decidable_of_iff (name ≠ [] ∧ name ≠ "." ∧ name ≠ ".." ∧ CodePoint.ofChar '/' ∉ name)
    ⟨fun ⟨h₁, h₂, h₃, h₄⟩ => ⟨h₁, h₂, h₃, h₄⟩, fun ⟨h₁, h₂, h₃, h₄⟩ => ⟨h₁, h₂, h₃, h₄⟩⟩

theorem IsName.isPart {name : Text} (h : IsName name) : Path.isPart name = true := by
  have hd : name ≠ Text.ofString "." := h.ne_dot
  simp [Path.isPart, List.isEmpty_eq_false_iff.2 h.ne_nil, hd]

theorem not_isName_iff {name : Text} : ¬IsName name ↔
    name = [] ∨ name = "." ∨ name = ".." ∨ CodePoint.ofChar '/' ∈ name := by
  constructor
  · intro h
    apply Decidable.byContradiction
    intro hne
    rw [not_or, not_or, not_or] at hne
    exact h ⟨hne.1, hne.2.1, hne.2.2.1, hne.2.2.2⟩
  · intro h hn
    rcases h with h | h | h | h
    · exact hn.ne_nil h
    · exact hn.ne_dot h
    · exact hn.ne_dots h
    · exact hn.no_slash h

/-- What is said of a text that is no name. -/
inductive Refusal.Concerns : Refusal → Text → Prop where
  | empty : Concerns .emptyName []
  | dot : Concerns (.dotName ".") "."
  | dots : Concerns (.dotName "..") ".."
  | separator {name : Text} : CodePoint.ofChar '/' ∈ name → Concerns (.separatorInName name) name

theorem Refusal.exists_concerns_iff {name : Text} : (∃ r : Refusal, r.Concerns name) ↔ ¬IsName name := by
  rw [not_isName_iff]
  constructor
  · rintro ⟨r, h⟩
    cases h with
    | empty => exact .inl rfl
    | dot => exact .inr (.inl rfl)
    | dots => exact .inr (.inr (.inl rfl))
    | separator h => exact .inr (.inr (.inr h))
  · rintro (rfl | rfl | rfl | h)
    · exact ⟨_, .empty⟩
    · exact ⟨_, .dot⟩
    · exact ⟨_, .dots⟩
    · exact ⟨_, .separator h⟩

namespace Path

theorem refusalOf?_eq_some_iff {name : Text} {r : Refusal} :
    refusalOf? name = some r ↔ r.Concerns name := by
  constructor
  · intro h
    unfold refusalOf? at h
    split at h
    · next hempty =>
      obtain rfl : name = [] := by simpa using hempty
      cases h
      exact .empty
    · split at h
      · next hdots =>
        cases h
        rcases hdots with rfl | rfl
        · exact .dot
        · exact .dots
      · split at h
        · next hslash =>
          cases h
          exact .separator (by simpa using hslash)
        · cases h
  · intro h
    cases h with
    | empty | dot | dots => rfl
    | separator hslash =>
      have hne : name ≠ [] := List.ne_nil_of_mem hslash
      have hdots : ¬(name = Text.ofString "." ∨ name = Text.ofString "..") := by
        rintro (rfl | rfl)
        · exact absurd hslash (by decide)
        · exact absurd hslash (by decide)
      rw [refusalOf?, if_neg (by simpa using hne), if_neg hdots, if_pos (by simpa using hslash)]

theorem refusalOf?_eq_none_iff {name : Text} : refusalOf? name = none ↔ IsName name := by
  have hsome : (∃ r, refusalOf? name = some r) ↔ ¬IsName name := by
    simp only [refusalOf?_eq_some_iff, Refusal.exists_concerns_iff]
  rw [← Option.not_isSome_iff_eq_none, Option.isSome_iff_exists, hsome, Decidable.not_not]

/-- The path that names lead to from a root. -/
def below (root : Path) (names : List Text) : Path := ⟨root.root, root.parts ++ names⟩

theorem below_nil (root : Path) : root.below [] = root := by simp [below]

theorem below_below (root : Path) (ns ms : List Text) :
    (root.below ns).below ms = root.below (ns ++ ms) := by simp [below]

theorem child_below (root : Path) (ns : List Text) (name : Text) :
    (root.below ns).child name = root.below (ns ++ [name]) := by simp [below, child]

theorem parent_below (root : Path) (ns : List Text) (name : Text) :
    (root.below (ns ++ [name])).parent = root.below ns := by
  simp [below, parent, ← List.append_assoc]

theorem join_of_isName (p : Path) {name : Text} (h : IsName name) : p.join name = p.child name :=
  join_name p h.isPart h.no_slash

theorem joinAll_of_isName (root : Path) {names : List Text} (h : ∀ n ∈ names, IsName n) :
    root.joinAll names = root.below names := by
  induction names generalizing root with
  | nil => rw [below_nil]; rfl
  | cons n ns ih =>
    have hn : IsName n := h n (by simp)
    show (root.join n).joinAll ns = _
    rw [ih _ fun m hm => h m (by simp [hm]), join_of_isName root hn,
      ← below_nil root, child_below, below_below]
    simp [below]

theorem compose_eq_ok_iff {root p : Path} {segments : List Text} {name : Text} :
    compose root segments name = .ok p ↔
      (∀ n ∈ segments ++ [name], IsName n) ∧ p = root.below (segments ++ [name]) := by
  unfold compose
  refine ⟨?_, ?_⟩
  · intro h
    split at h
    · simp at h
    · next hn =>
      have hall : ∀ n ∈ segments ++ [name], IsName n := fun n hn' =>
        refusalOf?_eq_none_iff.1 (List.findSome?_eq_none_iff.1 hn n hn')
      refine ⟨hall, ?_⟩
      rw [← joinAll_of_isName root hall]
      exact (Except.ok.inj h).symm
  · intro h
    obtain ⟨hall, rfl⟩ := h
    have hn : (segments ++ [name]).findSome? refusalOf? = none :=
      List.findSome?_eq_none_iff.2 fun n hn => refusalOf?_eq_none_iff.2 (hall n hn)
    rw [hn, joinAll_of_isName root hall]

end Path

end TreePlan
