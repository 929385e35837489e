import Mathlib.Tactic.ByContra
import TreePlan.FileSystem.Walk

/-! Where names lead, as a relation: one rule for each way in which a walk goes on. What a walk has found
it finds again in every file system that has more nodes, and what it has found vacant it finds once
there is a node. -/

namespace TreePlan.FileSystem

/-- A directory that the user may look for names in. -/
def Searchable (fs : FileSystem) (dir : Address) : Prop :=
  ∃ n, fs.node? dir = some n ∧ n.isDirectory = true ∧ n.grants .search = true

/-- A name that a directory may hold. -/
structure Proper (name : Name) : Prop where
  ne_nil : name ≠ []
  not_here : isHere name = false
  not_up : isUp name = false

/-- A name that is looked up as one to be made needs to come last. -/
def Fits (ending : Ending) (name : Name) (rest : List Name) : Prop :=
  Proper name ∧ name.length ≤ maxName ∧ (ending = .made → rest = [] ∨ rest.all List.isEmpty = false)

inductive Leads (fs : FileSystem) (ending : Ending) : Nat → Address → List Name → Spot → Prop where
  | arrive {links : Nat} {dir : Address} {n : Node} :
      fs.node? dir = some n → Leads fs ending links dir [] (.found dir n)
  | blank {links : Nat} {dir : Address} {rest : List Name} {spot : Spot} {n : Node} :
      fs.node? dir = some n → n.isDirectory = true →
      Leads fs ending links dir rest spot → Leads fs ending links dir ([] :: rest) spot
  | here {links : Nat} {dir : Address} {name : Name} {rest : List Name} {spot : Spot} :
      Searchable fs dir → name ≠ [] → isHere name = true →
      Leads fs ending links dir rest spot → Leads fs ending links dir (name :: rest) spot
  | up {links : Nat} {dir : Address} {name : Name} {rest : List Name} {spot : Spot} :
      Searchable fs dir → name ≠ [] → isHere name = false → isUp name = true →
      Leads fs ending links dir.dropLast rest spot → Leads fs ending links dir (name :: rest) spot
  | into {links : Nat} {dir : Address} {name : Name} {rest : List Name} {spot : Spot} {n : Node} :
      Searchable fs dir → Fits ending name rest →
      fs.node? (dir ++ [name]) = some n → n.target? = none →
      Leads fs ending links (dir ++ [name]) rest spot → Leads fs ending links dir (name :: rest) spot
  | vacant {links : Nat} {dir : Address} {name : Name} {rest : List Name} :
      Searchable fs dir → Fits ending name rest →
      fs.node? (dir ++ [name]) = none → rest.all List.isEmpty = true →
      Leads fs ending links dir (name :: rest) (.vacant dir name)
  | kept {links : Nat} {dir : Address} {name : Name} {n : Node} {target : Bytes} :
      ending = .kept → Searchable fs dir → Fits ending name [] →
      fs.node? (dir ++ [name]) = some n → n.target? = some target →
      Leads fs ending links dir [name] (.found (dir ++ [name]) n)
  | link {links : Nat} {dir : Address} {name : Name} {rest : List Name} {spot : Spot} {n : Node}
      {target : Bytes} :
      Searchable fs dir → Fits ending name rest →
      fs.node? (dir ++ [name]) = some n → n.target? = some target →
      (ending = .kept → rest ≠ []) → target ≠ [] →
      Leads fs ending links (if isAbsolute target then [] else dir) (splitSlashes target ++ rest) spot →
      Leads fs ending (links + 1) dir (name :: rest) spot

variable {fs : FileSystem} {ending : Ending} {links : Nat} {dir : Address} {name : Name}
  {names rest : List Name} {spot : Spot}

theorem fits_iff : Fits ending name rest ↔
    name.isEmpty = false ∧ isHere name = false ∧ isUp name = false ∧
      ¬(ending = .made && !rest.isEmpty && rest.all List.isEmpty) = true ∧ ¬maxName < name.length := by
  have hmade : (¬(ending = .made && !rest.isEmpty && rest.all List.isEmpty) = true) ↔
      (ending = .made → rest = [] ∨ rest.all List.isEmpty = false) := by
    simp only [Bool.and_eq_true, decide_eq_true_eq, Bool.not_eq_true', not_and, Bool.not_eq_true,
      List.isEmpty_eq_false_iff]
    refine ⟨?_, ?_⟩
    · intro h hm
      by_cases hr : rest = []
      · exact .inl hr
      · exact .inr (h ⟨hm, hr⟩)
    · rintro h ⟨hm, hr⟩
      exact (h hm).resolve_left hr
  rw [hmade, Nat.not_lt, List.isEmpty_eq_false_iff]
  refine ⟨?_, ?_⟩
  · intro h
    obtain ⟨⟨h₁, h₂, h₃⟩, h₄, h₅⟩ := h
    exact ⟨h₁, h₂, h₃, h₅, h₄⟩
  · intro h
    obtain ⟨h₁, h₂, h₃, h₅, h₄⟩ := h
    exact ⟨⟨h₁, h₂, h₃⟩, h₄, h₅⟩

theorem Searchable.of_not {n : Node} (hn : fs.node? dir = some n)
    (hd : ¬(!n.isDirectory) = true) (hs : ¬(!n.grants .search) = true) : Searchable fs dir :=
  ⟨n, hn, by simpa using hd, by simpa using hs⟩

theorem leads_of_walk (h : fs.walk ending links dir names = .ok spot) :
    Leads fs ending links dir names spot := by
  fun_induction walk fs ending links dir names with
  | case1 links dir n hn =>
    cases h
    exact .arrive hn
  | case5 links dir name rest n hn hd he ih =>
    obtain rfl : name = [] := List.isEmpty_iff.1 he
    exact .blank hn (by simpa using hd) (ih h)
  | case7 links dir name rest n hn hd he hs hh ih =>
    exact .here (.of_not hn hd hs) (by simpa using he) hh (ih h)
  | case8 links dir name rest n hn hd he hs hh hu ih =>
    exact .up (.of_not hn hd hs) (by simpa using he) (by simpa using hh) hu (ih h)
  | case11 links dir name rest n hn hd he hs hh hu hm hl ho hr =>
    cases h
    exact .vacant (.of_not hn hd hs)
      (fits_iff.2 ⟨by simpa using he, by simpa using hh, by simpa using hu, hm, hl⟩) ho hr
  | case13 links dir name rest n hn hd he hs hh hu hm hl m ho ht ih =>
    exact .into (.of_not hn hd hs)
      (fits_iff.2 ⟨by simpa using he, by simpa using hh, by simpa using hu, hm, hl⟩) ho ht (ih h)
  | case14 links dir name rest n hn hd he hs hh hu hm hl m ho target ht hk =>
    cases h
    rw [Bool.and_eq_true, decide_eq_true_eq] at hk
    obtain rfl : rest = [] := List.isEmpty_iff.1 hk.2
    exact .kept hk.1 (.of_not hn hd hs)
      (fits_iff.2 ⟨by simpa using he, by simpa using hh, by simpa using hu, hm, hl⟩) ho ht
  | case17 dir name rest n hn hd he hs hh hu hm hl m ho target ht hk links hne ih =>
    refine .link (.of_not hn hd hs)
      (fits_iff.2 ⟨by simpa using he, by simpa using hh, by simpa using hu, hm, hl⟩) ho ht
      (fun hk' hr => hk ?_) (by simpa using hne) (ih h)
    simp [hk', hr]
  | _ => cases h

theorem Searchable.walk_eq (h : Searchable fs dir) (hf : Fits ending name rest) :
    fs.walk ending links dir (name :: rest) =
      match fs.node? (dir ++ [name]) with
      | none => if rest.all List.isEmpty then .ok (.vacant dir name) else .error .notFound
      | some node =>
        match node.target? with
        | none => fs.walk ending links (dir ++ [name]) rest
        | some target =>
          if ending = .kept && rest.isEmpty then .ok (.found (dir ++ [name]) node)
          else
            match links with
            | 0 => .error .tooManyLinks
            | links + 1 =>
              if target.isEmpty then .error .notFound
              else
                fs.walk ending links (if isAbsolute target then [] else dir)
                  (splitSlashes target ++ rest) := by
  obtain ⟨n, hn, hd, hs⟩ := h
  obtain ⟨h₁, h₂, h₃, h₄, h₅⟩ := fits_iff.1 hf
  rw [walk, hn]
  refine (if_neg (by simp [hd])).trans ?_
  refine (if_neg (by simp [h₁])).trans ?_
  refine (if_neg (by simp [hs])).trans ?_
  refine (if_neg (by simp [h₂])).trans ?_
  refine (if_neg (by simp [h₃])).trans ?_
  refine (if_neg h₄).trans ?_
  exact if_neg h₅

theorem walk_of_leads (h : Leads fs ending links dir names spot) :
    fs.walk ending links dir names = .ok spot := by
  induction h with
  | arrive hn => rw [walk, hn]
  | blank hn hd _ ih =>
    rw [walk, hn]
    simpa [hd] using ih
  | here hs he hh _ ih =>
    obtain ⟨n, hn, hd, hs⟩ := hs
    rw [walk, hn]
    simpa [hd, hs, hh, he] using ih
  | up hs he hh hu _ ih =>
    obtain ⟨n, hn, hd, hs⟩ := hs
    rw [walk, hn]
    simpa [hd, hs, hh, hu, he] using ih
  | into hs hf ho ht _ ih =>
    rw [hs.walk_eq hf, ho]
    dsimp only
    rw [ht]
    exact ih
  | vacant hs hf ho hr =>
    rw [hs.walk_eq hf, ho]
    dsimp only
    rw [if_pos hr]
  | kept hk hs hf ho ht =>
    rw [hs.walk_eq hf, ho]
    dsimp only
    rw [ht]
    simp [hk]
  | @link links dir name rest spot n target hs hf ho ht hk hne _ ih =>
    have hk' : ¬(ending = .kept && rest.isEmpty) = true := by
      rw [Bool.and_eq_true, decide_eq_true_eq, List.isEmpty_iff]
      exact fun h => hk h.1 h.2
    rw [hs.walk_eq hf, ho]
    dsimp only
    rw [ht]
    dsimp only
    rw [if_neg hk', if_neg (by simpa using hne)]
    exact ih

/-- The walk comes to a spot just when the rules lead there. -/
theorem walk_eq_ok_iff :
    fs.walk ending links dir names = .ok spot ↔ Leads fs ending links dir names spot :=
  ⟨leads_of_walk, walk_of_leads⟩

/-- All that one file system holds the other holds too. -/
structure Extends (fs gs : FileSystem) : Prop where
  node? : ∀ a n, fs.node? a = some n → gs.node? a = some n
  workingDirectory : gs.workingDirectory = fs.workingDirectory

variable {gs hs : FileSystem}

theorem Extends.refl (fs : FileSystem) : Extends fs fs := ⟨fun _ _ h => h, rfl⟩

theorem Extends.trans (h : Extends fs gs) (h' : Extends gs hs) : Extends fs hs :=
  ⟨fun a n hn => h'.node? a n (h.node? a n hn), h'.workingDirectory.trans h.workingDirectory⟩

theorem Extends.searchable (h : Extends fs gs) (hs : Searchable fs dir) : Searchable gs dir := by
  obtain ⟨n, hn, hd, hs⟩ := hs
  exact ⟨n, h.node? _ _ hn, hd, hs⟩

/-- What has been found stays where it is. -/
theorem Leads.extend {a : Address} {n : Node} (h : Leads fs ending links dir names (.found a n))
    (hx : Extends fs gs) : Leads gs ending links dir names (.found a n) := by
  generalize hspot : Spot.found a n = spot at h
  induction h with
  | arrive hn =>
    cases hspot
    exact .arrive (hx.node? _ _ hn)
  | blank hn hd _ ih => exact .blank (hx.node? _ _ hn) hd (ih hspot)
  | here hs he hh _ ih => exact .here (hx.searchable hs) he hh (ih hspot)
  | up hs he hh hu _ ih => exact .up (hx.searchable hs) he hh hu (ih hspot)
  | into hs hf ho ht _ ih => exact .into (hx.searchable hs) hf (hx.node? _ _ ho) ht (ih hspot)
  | vacant => cases hspot
  | kept hk hs hf ho ht =>
    cases hspot
    exact .kept hk (hx.searchable hs) hf (hx.node? _ _ ho) ht
  | link hs hf ho ht hk hne _ ih =>
    exact .link (hx.searchable hs) hf (hx.node? _ _ ho) ht hk hne (ih hspot)

theorem Leads.node?_found {a : Address} {n : Node}
    (h : Leads fs ending links dir names (.found a n)) : fs.node? a = some n := by
  generalize hspot : Spot.found a n = spot at h
  induction h with
  | arrive hn =>
    cases hspot
    exact hn
  | blank _ _ _ ih => exact ih hspot
  | here _ _ _ _ ih => exact ih hspot
  | up _ _ _ _ _ ih => exact ih hspot
  | into _ _ _ _ _ ih => exact ih hspot
  | vacant => cases hspot
  | kept _ _ _ ho _ =>
    cases hspot
    exact ho
  | link _ _ _ _ _ _ _ ih => exact ih hspot

theorem Leads.node?_vacant {d : Address} {x : Name}
    (h : Leads fs ending links dir names (.vacant d x)) : fs.node? (d ++ [x]) = none := by
  generalize hspot : Spot.vacant d x = spot at h
  induction h with
  | arrive => cases hspot
  | blank _ _ _ ih => exact ih hspot
  | here _ _ _ _ ih => exact ih hspot
  | up _ _ _ _ _ ih => exact ih hspot
  | into _ _ _ _ _ ih => exact ih hspot
  | vacant _ _ ho _ =>
    cases hspot
    exact ho
  | kept => cases hspot
  | link _ _ _ _ _ _ _ ih => exact ih hspot

/-- The last of some names is one. -/
def EndInName (names : List Name) : Prop := ∃ x, names.getLast? = some x ∧ x ≠ []

theorem EndInName.tail (h : EndInName (name :: rest)) (hr : rest ≠ []) : EndInName rest := by
  obtain ⟨x, hx, hne⟩ := h
  refine ⟨x, ?_, hne⟩
  rwa [List.getLast?_cons_of_ne_nil hr] at hx

theorem EndInName.append (h : EndInName rest) (names : List Name) : EndInName (names ++ rest) := by
  obtain ⟨x, hx, hne⟩ := h
  exact ⟨x, by rw [List.getLast?_append, hx]; rfl, hne⟩

theorem EndInName.eq_nil (h : EndInName (name :: rest)) (hr : rest.all List.isEmpty = true) :
    rest = [] := by
  by_contra hne
  obtain ⟨x, hx, hx'⟩ := h.tail hne
  exact hx' (List.isEmpty_iff.1 (List.all_eq_true.1 hr x (List.mem_of_getLast? hx)))

theorem Fits.of_kept (h : Fits .kept name rest) (he : ending ≠ .made) : Fits ending name rest :=
  ⟨h.1, h.2.1, fun hm => absurd hm he⟩

/-- Where nothing was found the new node is found, unless it is a symlink that is followed. -/
theorem Leads.fill {d : Address} {x : Name} {n : Node}
    (h : Leads fs .kept links dir names (.vacant d x)) (hx : Extends fs gs)
    (hn : gs.node? (d ++ [x]) = some n) (hend : EndInName names)
    (he : ending = .kept ∨ ending = .followed ∧ n.target? = none) :
    Leads gs ending links dir names (.found (d ++ [x]) n) := by
  have hmade : ending ≠ .made := by
    rcases he with rfl | ⟨rfl, -⟩ <;> exact fun h => by cases h
  generalize hspot : Spot.vacant d x = spot at h
  induction h with
  | arrive => cases hspot
  | @blank links dir rest _ _ hn hd hl ih =>
    have hr : rest ≠ [] := by
      rintro rfl
      obtain ⟨y, hy, hne⟩ := hend
      exact hne (by simpa using hy.symm)
    exact .blank (hx.node? _ _ hn) hd (ih (hend.tail hr) hspot)
  | @here links dir name rest _ hs he hh hl ih =>
    have hr : rest ≠ [] := by
      rintro rfl
      cases hl
      simp at hspot
    exact .here (hx.searchable hs) he hh (ih (hend.tail hr) hspot)
  | @up links dir name rest _ hs he hh hu hl ih =>
    have hr : rest ≠ [] := by
      rintro rfl
      cases hl
      simp at hspot
    exact .up (hx.searchable hs) he hh hu (ih (hend.tail hr) hspot)
  | @into links dir name rest _ _ hs hf ho ht hl ih =>
    have hr : rest ≠ [] := by
      rintro rfl
      cases hl
      simp at hspot
    exact .into (hx.searchable hs) (hf.of_kept hmade) (hx.node? _ _ ho) ht (ih (hend.tail hr) hspot)
  | @vacant links dir name rest hs hf ho hr =>
    cases hspot
    obtain rfl : rest = [] := hend.eq_nil hr
    cases ht : n.target? with
    | none => exact .into (hx.searchable hs) (hf.of_kept hmade) hn ht (.arrive hn)
    | some target =>
      have hk : ending = .kept := he.resolve_right fun h => by rw [ht] at h; cases h.2
      exact .kept hk (hx.searchable hs) (hf.of_kept hmade) hn ht
  | kept => cases hspot
  | link hs hf ho ht hk hne _ ih =>
    have hr := hk rfl
    exact .link (hx.searchable hs) (hf.of_kept hmade) (hx.node? _ _ ho) ht (fun _ => hr) hne
      (ih ((hend.tail hr).append _) hspot)

end TreePlan.FileSystem
