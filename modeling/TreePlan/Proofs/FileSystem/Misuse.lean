import TreePlan.Proofs.FileSystem.Growth

/-! Failures that come from a call alone. Before the file system is looked at, the texts of a call have to
turn into bytes, its numbers into words and its accounts into numbers; whatever fails after that is a
failure of the system. -/

namespace TreePlan.FileSystem

/-- What a change of owner is checked for where these are the accounts. -/
def ownerCheck (accounts : Account.Register) (path : Text) (owner group : Option Text) :
    Except Failure Unit := do
  let owner ← Account.resolveIn accounts .user owner
  let group ← Account.resolveIn accounts .group group
  let _ ← systemBytes path
  let _ ← Account.checked .user owner
  let _ ← Account.checked .group group
  return ()

/-- What a call is checked for before the file system is looked at. -/
def precheck : Call → Except Failure Unit
  | .visit _ | .close _ | .observe _ => return ()
  | .makeDirectory path mode => do
    let _ ← systemBytes path.toText
    let _ ← checkMode (mode.getD 0o777)
    return ()
  | .createFile path | .write path _ => do
    let _ ← systemBytes path.toText
    return ()
  | .setMode path mode => do
    let _ ← systemBytes path.toText
    let _ ← checkMode mode
    return ()
  | .link target path => do
    let _ ← systemBytes target
    let _ ← systemBytes path.toText
    return ()
  | .setOwner path owner group _ => do
    let owner ← Account.resolve .user owner
    let group ← Account.resolve .group group
    let _ ← systemBytes path.toText
    let _ ← Account.checked .user owner
    let _ ← Account.checked .group group
    return ()

/-- The failure is one of the system. -/
def OfSystem (f : Failure) : Prop := ∃ fault, f = .system fault

/-- A check tells how what comes after it fails, unless the system is why. -/
structure Checks {α : Type} (check : Except Failure Unit) (x : Except Failure α) : Prop where
  fails : ∀ f, check = .error f → x = .error f
  otherwise : ∀ f, x = .error f → check = .error f ∨ OfSystem f

section Checks

variable {α β : Type} {check : Except Failure Unit}

theorem Checks.last {x : Except Failure β} (h : ∀ f, x = .error f → OfSystem f) :
    Checks (pure ()) x := by
  refine ⟨fun f hf => ?_, fun f hf => .inr (h f hf)⟩
  cases hf

theorem Checks.bind {x : Except Failure α} {g : α → Except Failure Unit} {k : α → Except Failure β}
    (h : ∀ a, x = .ok a → Checks (g a) (k a)) : Checks (x >>= g) (x >>= k) := by
  refine ⟨fun f hf => ?_, fun f hf => ?_⟩
  · rcases bind_eq_error_iff.1 hf with hx | ⟨a, hx, hg⟩
    · exact bind_eq_error_iff.2 (.inl hx)
    · exact bind_eq_error_iff.2 (.inr ⟨a, hx, (h a hx).fails f hg⟩)
  · rcases bind_eq_error_iff.1 hf with hx | ⟨a, hx, hk⟩
    · exact .inl (bind_eq_error_iff.2 (.inl hx))
    · refine ((h a hx).otherwise f hk).imp_left fun hg => ?_
      exact bind_eq_error_iff.2 (.inr ⟨a, hx, hg⟩)

theorem Checks.then {x : Except Failure α} {k : α → Except Failure β} (h : Checks check x)
    (hk : ∀ a f, k a = .error f → OfSystem f) : Checks check (x >>= k) := by
  refine ⟨fun f hf => bind_eq_error_iff.2 (.inl (h.fails f hf)), fun f hf => ?_⟩
  rcases bind_eq_error_iff.1 hf with hx | ⟨a, -, ha⟩
  · exact h.otherwise f hx
  · exact .inr (hk a f ha)

theorem Checks.unexpected_iff {x : Except Failure α} {f : Failure} (h : Checks check x)
    (hf : f.isExpected = false) : x = .error f ↔ check = .error f := by
  refine ⟨fun hx => (h.otherwise f hx).resolve_right ?_, h.fails f⟩
  rintro ⟨fault, rfl⟩
  cases hf

end Checks

variable {fs : FileSystem} {path : Text} {f : Failure} {c : Call}

/-- Whether a text can be handed to the system at all. -/
def speaks (path : Text) : Except Failure Unit := do
  let _ ← systemBytes path
  return ()

theorem speaks_eq_error_iff : speaks path = .error f ↔ systemBytes path = .error f := by
  unfold speaks
  rw [bind_eq_error_iff]
  refine ⟨?_, ?_⟩
  · intro h
    rcases h with h | ⟨b, -, h⟩
    · exact h
    · cases h
  · exact .inl

theorem isValue_of_systemBytes (h : systemBytes path = .error f) : f.kind.isValue = true := by
  unfold systemBytes at h
  split at h
  · cases h
    rfl
  · split at h
    · cases h
      rfl
    · simp at h

theorem checks_locate (fs : FileSystem) (ending : Ending) (path : Text) :
    Checks (speaks path) (fs.locate ending path) := by
  refine Checks.bind fun b _ => Checks.last fun f hf => ?_
  cases hl : fs.locateBytes ending b with
  | error fault =>
    rw [hl] at hf
    cases hf
    exact ⟨fault, rfl⟩
  | ok spot =>
    rw [hl] at hf
    cases hf

theorem checks_find (fs : FileSystem) (ending : Ending) (path : Text) :
    Checks (speaks path) (fs.find ending path) := by
  refine (checks_locate fs ending path).then fun spot f hf => ?_
  cases spot with
  | found => cases hf
  | vacant =>
    cases hf
    exact ⟨_, rfl⟩

theorem checks_add (fs : FileSystem) (path : Text) (make : Node → Node) :
    Checks (speaks path) (fs.add path make) := by
  refine (checks_locate fs .kept path).then fun spot f hf => ?_
  cases spot with
  | found =>
    cases hf
    exact ⟨_, rfl⟩
  | vacant d x =>
    dsimp only at hf
    unfold addTo at hf
    split at hf
    · cases hf
      exact ⟨_, rfl⟩
    · split at hf
      · simp at hf
      · cases hf
        exact ⟨_, rfl⟩

/-- Once the bytes of its path can be had, what is checked for no more fails by the system. -/
theorem Checks.ofSystem {α : Type} {x : Except Failure α} {b : Bytes} (h : Checks (speaks path) x)
    (hb : systemBytes path = .ok b) (hx : x = .error f) : OfSystem f := by
  refine (h.otherwise f hx).resolve_left fun he => ?_
  rw [speaks_eq_error_iff, hb] at he
  simp at he

/-- To look at a path fails by the system only, and not for what is merely absent; a text that is no path
leads nowhere. -/
theorem look?_eq_error_iff : fs.look? path = .error f ↔
    ∃ fault, f = .system fault ∧ fault.isAbsence = false ∧ fs.find .followed path = .error f := by
  unfold look?
  refine ⟨?_, ?_⟩
  · intro h
    split at h
    · simp at h
    · next fault hf =>
      split at h
      · simp at h
      · next ha =>
        cases h
        exact ⟨fault, rfl, by simpa using ha, hf⟩
    · next f' hne hf =>
      rcases (checks_find fs .followed path).otherwise f' hf with hb | ⟨fault, hs⟩
      · rw [if_pos (isValue_of_systemBytes (speaks_eq_error_iff.1 hb))] at h
        simp at h
      · exact absurd hs (hne fault)
  · intro h
    obtain ⟨fault, rfl, ha, hf⟩ := h
    rw [hf]
    dsimp only
    rw [if_neg (by simp [ha])]

theorem map_look?_eq_error_iff {g : Option Node → Bool} :
    (fs.look? path).map g = .error f ↔ fs.look? path = .error f := by
  cases fs.look? path <;> simp [Except.map]

theorem visit_eq_error (h : fs.visit path = .error f) : OfSystem f := by
  have hmap {g : Option Node → Bool} (h : (fs.look? path).map g = .error f) : OfSystem f := by
    obtain ⟨fault, hf, -⟩ := look?_eq_error_iff.1 (map_look?_eq_error_iff.1 h)
    exact ⟨fault, hf⟩
  unfold visit at h
  rcases bind_eq_error_iff.1 h with he | ⟨_, -, h⟩
  · exact hmap he
  · dsimp only at h
    split at h
    · rcases bind_eq_error_iff.1 h with he | ⟨_, -, h⟩
      · exact hmap he
      · split at h
        · cases h
        · cases h
          exact ⟨_, rfl⟩
    · cases h
      exact ⟨_, rfl⟩

theorem checks_overwrite (fs : FileSystem) (path : Text) (content : Bytes) :
    Checks (speaks path) (fs.overwrite path content) := by
  refine (checks_find fs .followed path).then fun p f hf => ?_
  dsimp only at hf
  split at hf
  · cases hf
    exact ⟨_, rfl⟩
  · cases hf

theorem checks_setOwnerIn (accounts : Account.Register) (fs : FileSystem) (path : Text)
    (owner group : Option Text) (follow : Bool) :
    Checks (ownerCheck accounts path owner group) (fs.setOwnerIn accounts path owner group follow) := by
  refine .bind fun o _ => .bind fun g _ => .bind fun b hb => .bind fun o' _ => .bind fun g' _ => ?_
  refine .last fun f hf => ?_
  refine ((checks_find fs _ path).then fun p f hf => ?_).ofSystem hb hf
  dsimp only at hf
  split at hf
  · cases hf
    exact ⟨_, rfl⟩
  · cases hf

/-- A call fails by what it is checked for, or else by the system. -/
theorem checks_effect (fs : FileSystem) (c : Call) : Checks (precheck c) (effect c fs) := by
  cases c with
  | visit path => exact .last fun f hf => visit_eq_error hf
  | close | observe => exact .last nofun
  | makeDirectory path mode =>
    refine .bind fun b hb => .bind fun m _ => .last fun f hf => ?_
    exact (checks_add fs path.toText _).ofSystem hb hf
  | createFile path => exact checks_add fs path.toText _
  | write path content => exact checks_overwrite fs path.toText content
  | setMode path mode =>
    refine .bind fun b hb => .bind fun m _ => .last fun f hf => ?_
    refine ((checks_find fs .followed path.toText).then fun p f hf => ?_).ofSystem hb hf
    dsimp only at hf
    split at hf
    · cases hf
      exact ⟨_, rfl⟩
    · cases hf
  | link target path =>
    refine .bind fun t _ => .bind fun b hb => .last fun f hf => ?_
    dsimp only at hf
    split at hf
    · cases hf
      exact ⟨_, rfl⟩
    · split at hf
      · cases hf
        exact ⟨_, rfl⟩
      · exact (checks_add fs path.toText _).ofSystem hb hf
  | setOwner path owner group follow =>
    exact checks_setOwnerIn Account.sole fs path.toText owner group follow

/-- A call fails in a way that is not expected just when it is misused, on whatever file system. -/
theorem effect_unexpected_iff (hf : f.isExpected = false) :
    effect c fs = .error f ↔ precheck c = .error f := (checks_effect fs c).unexpected_iff hf

end TreePlan.FileSystem
