import Mathlib.Logic.Function.Iterate
import TreePlan.Proofs.Path.Name
import TreePlan.Proofs.Text.Scanning

/-! Composed paths, exactly. A place is refused for the first of its names that is none. Otherwise its path is
the root and then the names, so that no two places share a path and none has that of the root. A path is read
back from its text, which says the same of the texts that a system is handed. -/

namespace TreePlan

namespace Path

variable {root p : Path} {segments names parts : List Text} {t name : Text} {r : Refusal}

/-- A place is refused for the first of its names that is none. -/
theorem compose_eq_error_iff : compose root segments name = .error r ↔
    ∃ earlier bad later, segments ++ [name] = earlier ++ bad :: later ∧ (∀ n ∈ earlier, IsName n) ∧
      r.Concerns bad := by
  have hfirst : compose root segments name = .error r ↔
      (segments ++ [name]).findSome? refusalOf? = some r := by
    unfold compose
    split
    · next h => simp [h]
    · next h => simp [h]
  rw [hfirst, List.findSome?_eq_some_iff]
  simp only [refusalOf?_eq_some_iff, refusalOf?_eq_none_iff]
  constructor
  · rintro ⟨earlier, bad, later, he, hbad, hgood⟩
    exact ⟨earlier, bad, later, he, hgood, hbad⟩
  · rintro ⟨earlier, bad, later, he, hgood, hbad⟩
    exact ⟨earlier, bad, later, he, hbad, hgood⟩

theorem exists_compose_eq_error_iff :
    (∃ r, compose root segments name = .error r) ↔ ∃ n ∈ segments ++ [name], ¬IsName n := by
  have hok : (∃ p, compose root segments name = .ok p) ↔ ∀ n ∈ segments ++ [name], IsName n := by
    simp only [compose_eq_ok_iff, exists_and_left, exists_eq, and_true]
  have hbad : (∃ n ∈ segments ++ [name], ¬IsName n) ↔ ¬∀ n ∈ segments ++ [name], IsName n := by
    simp only [not_forall, exists_prop]
  rw [hbad, ← hok]
  cases compose root segments name with
  | error r => simp
  | ok p => simp

theorem eq_below_iff : p = root.below names ↔ p.root = root.root ∧ p.parts = root.parts ++ names := by
  constructor
  · rintro rfl
    exact ⟨rfl, rfl⟩
  · rintro ⟨hroot, hparts⟩
    rw [below, ← hroot, ← hparts]

/-- Some steps up from another path lead to this one. -/
def IsAbove (root p : Path) : Prop := p ≠ root ∧ ∃ n, parent^[n] p = root

theorem parent_iterate_below (root : Path) (names : List Text) :
    parent^[names.length] (root.below names) = root := by
  induction names using List.reverseRecOn with
  | nil => exact below_nil root
  | append_singleton names name ih =>
    rw [List.length_append, List.length_singleton, Function.iterate_succ_apply, parent_below, ih]

theorem isAbove_below (root : Path) (hne : names ≠ []) : root.IsAbove (root.below names) := by
  refine ⟨fun he => hne ?_, names.length, parent_iterate_below root names⟩
  have hparts : root.parts ++ names = root.parts := congrArg Path.parts he
  simpa using hparts

theorem below_inj {names' : List Text} (h : root.below names = root.below names') : names = names' :=
  List.append_cancel_left (congrArg Path.parts h)

/-! Reading a path back from its text. -/

/-- Each part of a path is one that its text can hold. -/
def Written (p : Path) : Prop := ∀ part ∈ p.parts, isPart part = true ∧ CodePoint.ofChar '/' ∉ part

theorem written_ofText (t : Text) : (ofText t).Written := by
  intro part hpart
  have hmem : part ∈ Text.splitOn '/' t ∧ isPart part = true := List.mem_filter.1 hpart
  exact ⟨hmem.2, Text.notMem_of_mem_splitOn hmem.1⟩

theorem Written.below (h : root.Written) (hall : ∀ n ∈ names, IsName n) : (root.below names).Written := by
  intro part hpart
  rcases List.mem_append.1 hpart with hp | hp
  · exact h part hp
  · exact ⟨(hall part hp).isPart, (hall part hp).no_slash⟩

theorem partsOf_unlines (h : ∀ part ∈ parts, isPart part = true ∧ CodePoint.ofChar '/' ∉ part) :
    partsOf (Text.unlines "/" parts) = parts := by
  by_cases hne : parts = []
  · rw [hne]
    rfl
  · have hsplit : Text.splitOn '/' (Text.unlines "/" parts) = parts :=
      Text.splitOn_unlines hne fun part hp => (h part hp).2
    rw [partsOf, hsplit]
    exact List.filter_eq_self.2 fun part hp => (h part hp).1

theorem partsOf_append_root (root : Root) (t : Text) : partsOf (root.toText ++ t) = partsOf t := by
  cases root with
  | relative | slash | doubleSlash => rfl

/-- The slashes at the front are a root where no others follow them. -/
theorem rootOf_append (root : Root) (h : ∀ c ∈ t.head?, c ≠ CodePoint.ofChar '/') :
    Root.ofText (root.toText ++ t) = root := by
  have hslashes : ∀ c ∈ root.toText, c = CodePoint.ofChar '/' := by
    cases root with
    | relative => exact fun c hc => List.eq_of_mem_replicate (n := 0) hc
    | slash => exact fun c hc => List.eq_of_mem_replicate (n := 1) hc
    | doubleSlash => exact fun c hc => List.eq_of_mem_replicate (n := 2) hc
  have hrun : (root.toText ++ t).takeWhile (fun c : CodePoint => c = '/') = root.toText :=
    (Text.run_append (by simpa using hslashes) (by simpa using h)).1
  rw [Root.ofText, hrun]
  cases root with
  | relative | slash | doubleSlash => rfl

theorem head?_unlines (h : ∀ part ∈ parts, isPart part = true ∧ CodePoint.ofChar '/' ∉ part) :
    ∀ c ∈ (Text.unlines "/" parts).head?, c ≠ CodePoint.ofChar '/' := by
  cases parts with
  | nil => simp [Text.unlines]
  | cons part parts =>
    obtain ⟨hpart, hslash⟩ := h part List.mem_cons_self
    obtain ⟨u, hu⟩ := Text.unlines_eq_append "/" part parts
    rw [hu]
    cases part with
    | nil => cases hpart
    | cons d part =>
      rintro c ⟨⟩ rfl
      exact hslash List.mem_cons_self

/-- The text of a path says all of it. -/
theorem ofText_toText (h : p.Written) : ofText p.toText = p := by
  obtain ⟨root, parts⟩ := p
  unfold toText
  split
  · next hhere =>
    obtain ⟨rfl, rfl⟩ : root = .relative ∧ parts = [] := hhere
    rfl
  · rw [ofText, rootOf_append root (head?_unlines h), partsOf_append_root, partsOf_unlines h]

/-- A place is refused just when one of its names is none, for the first that is, and else has the path that
its names spell below the root: one of its own, further down than the root, and told by its text. -/
theorem compose_exact (root : Path) :
    (∀ segments name, (∃ r, compose root segments name = .error r) ↔
      ∃ n ∈ segments ++ [name], n = [] ∨ n = "." ∨ n = ".." ∨ CodePoint.ofChar '/' ∈ n) ∧
    (∀ segments name r, compose root segments name = .error r ↔
      ∃ earlier bad later, segments ++ [name] = earlier ++ bad :: later ∧ (∀ n ∈ earlier, IsName n) ∧
        r.Concerns bad) ∧
    (∀ segments name p, compose root segments name = .ok p ↔
      (∀ n ∈ segments ++ [name], IsName n) ∧ p.root = root.root ∧
        p.parts = root.parts ++ segments ++ [name]) ∧
    (∀ segments name segments' name' p, compose root segments name = .ok p →
      compose root segments' name' = .ok p → segments' = segments ∧ name' = name) ∧
    (∀ segments name p, compose root segments name = .ok p → root.IsAbove p) ∧
    ∀ t, root = ofText t → ∀ segments name p, compose root segments name = .ok p → ofText p.toText = p := by
  refine ⟨fun segments name => ?_, fun _ _ _ => compose_eq_error_iff, fun segments name p => ?_,
    fun segments name segments' name' p h h' => ?_, fun segments name p h => ?_, ?_⟩
  · rw [exists_compose_eq_error_iff]
    simp only [not_isName_iff]
  · rw [compose_eq_ok_iff, eq_below_iff, List.append_assoc]
  · obtain ⟨-, hp⟩ := compose_eq_ok_iff.1 h
    obtain ⟨-, hp'⟩ := compose_eq_ok_iff.1 h'
    have hnames : segments' ++ [name'] = segments ++ [name] := below_inj (hp'.symm.trans hp)
    simpa using List.append_inj' hnames rfl
  · obtain ⟨-, rfl⟩ := compose_eq_ok_iff.1 h
    exact isAbove_below root (by simp)
  · rintro t rfl segments name p h
    obtain ⟨hall, rfl⟩ := compose_eq_ok_iff.1 h
    exact ofText_toText ((written_ofText t).below hall)

/-- Below a root of two slashes that goes up, a name may hold dots but not be two of them. -/
theorem compose_exact_dots :
    compose (ofText "//x/..") ["a", "b.."] "c" = .ok ⟨.doubleSlash, ["x", "..", "a", "b..", "c"]⟩ ∧
      (ofText "//x/..").IsAbove ⟨.doubleSlash, ["x", "..", "a", "b..", "c"]⟩ ∧
      ofText "//x/../a/b../c" = ⟨.doubleSlash, ["x", "..", "a", "b..", "c"]⟩ ∧
      compose (ofText "//x/..") ["a", ".."] "x/y" = .error (.dotName "..") := by
  obtain ⟨-, hrefused, hcomposed, -, habove, htext⟩ := compose_exact (ofText "//x/..")
  have hc : compose (ofText "//x/..") ["a", "b.."] "c" =
      .ok ⟨.doubleSlash, ["x", "..", "a", "b..", "c"]⟩ :=
    (hcomposed _ _ _).2 ⟨by decide, rfl, rfl⟩
  exact ⟨hc, habove _ _ _ hc, htext _ rfl _ _ _ hc,
    (hrefused _ _ _).2 ⟨["a"], "..", ["x/y"], rfl, by decide, .dots⟩⟩

end Path

end TreePlan
