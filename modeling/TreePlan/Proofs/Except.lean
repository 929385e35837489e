/-! Results of computations that may fail, taken apart. -/

namespace TreePlan

variable {ε α β : Type} {x : Except ε α} {b : β}

theorem bind_eq_ok_iff {f : α → Except ε β} : x >>= f = .ok b ↔ ∃ a, x = .ok a ∧ f a = .ok b := by
  cases x with
  | error e =>
    refine ⟨?_, ?_⟩
    · intro h
      cases h
    · intro h
      obtain ⟨a, h, -⟩ := h
      simp at h
  | ok a =>
    refine ⟨?_, ?_⟩
    · exact fun h => ⟨a, rfl, h⟩
    · intro h
      obtain ⟨a', h, hf⟩ := h
      cases h
      exact hf

theorem bind_eq_error_iff {f : α → Except ε β} {e : ε} :
    x >>= f = .error e ↔ x = .error e ∨ ∃ a, x = .ok a ∧ f a = .error e := by
  cases x with
  | error e' =>
    refine ⟨?_, ?_⟩
    · exact fun h => .inl (congrArg Except.error (Except.error.inj h))
    · intro h
      rcases h with h | ⟨a, h, -⟩
      · exact congrArg Except.error (Except.error.inj h)
      · simp at h
  | ok a =>
    refine ⟨?_, ?_⟩
    · exact fun h => .inr ⟨a, rfl, h⟩
    · intro h
      rcases h with h | ⟨a', h, hf⟩
      · simp at h
      · cases h
        exact hf

theorem map_eq_ok_iff {f : α → β} : x.map f = .ok b ↔ ∃ a, x = .ok a ∧ f a = b := by
  cases x with
  | error e =>
    refine ⟨?_, ?_⟩
    · intro h
      cases h
    · intro h
      obtain ⟨a, h, -⟩ := h
      simp at h
  | ok a =>
    refine ⟨?_, ?_⟩
    · exact fun h => ⟨a, rfl, Except.ok.inj h⟩
    · intro h
      obtain ⟨a', h, rfl⟩ := h
      cases h
      rfl

theorem map_eq_error_iff {f : α → β} {e : ε} : x.map f = .error e ↔ x = .error e := by
  cases x with
  | error e' => exact ⟨fun h => congrArg _ (Except.error.inj h), fun h => congrArg _ (Except.error.inj h)⟩
  | ok a => exact ⟨nofun, nofun⟩

theorem mapError_eq_ok_iff {ε' : Type} {f : ε → ε'} {a : α} : x.mapError f = .ok a ↔ x = .ok a := by
  cases x with
  | error e => exact ⟨nofun, nofun⟩
  | ok a' => exact ⟨fun h => congrArg _ (Except.ok.inj h), fun h => congrArg _ (Except.ok.inj h)⟩

theorem map_bind_eq {γ : Type} (x : Except ε α) (k : α → Except ε β) (g : β → γ) :
    (x >>= k).map g = x >>= fun a => (k a).map g := by
  cases x <;> rfl

section State

variable {σ : Type} {f : α → ExceptT ε (StateM σ) β} {s t : σ}

theorem run_bind_of_ok {x : ExceptT ε (StateM σ) α} {a : α} (h : x.run s = (.ok a, t)) :
    (x >>= f).run s = (f a).run t := by
  have hb : (x >>= f).run s = ExceptT.bindCont f (x.run s).1 (x.run s).2 := rfl
  rw [hb, h]
  rfl

theorem run_bind_of_error {x : ExceptT ε (StateM σ) α} {e : ε} (h : x.run s = (.error e, t)) :
    (x >>= f).run s = (.error e, t) := by
  have hb : (x >>= f).run s = ExceptT.bindCont f (x.run s).1 (x.run s).2 := rfl
  rw [hb, h]
  rfl

theorem run_bind_eq_ok {x : ExceptT ε (StateM σ) α} (h : (x >>= f).run s = (.ok b, t)) :
    ∃ a u, x.run s = (.ok a, u) ∧ (f a).run u = (.ok b, t) := by
  obtain ⟨r, u, hx⟩ : ∃ r u, x.run s = (r, u) := ⟨_, _, rfl⟩
  cases r with
  | error e =>
    rw [run_bind_of_error hx] at h
    cases h
  | ok a =>
    rw [run_bind_of_ok hx] at h
    exact ⟨a, u, hx, h⟩

theorem run_liftM_eq_ok {a : α} (h : (liftM x : ExceptT ε (StateM σ) α).run s = (.ok a, t)) :
    x = .ok a ∧ t = s := by
  cases x with
  | error e => cases h
  | ok a' =>
    cases h
    exact ⟨rfl, rfl⟩

theorem run_lift_of_eq {x : StateM σ α} {a : α} (h : x s = (a, t)) :
    (ExceptT.lift x : ExceptT ε (StateM σ) α).run s = (.ok a, t) := by
  have hl : (ExceptT.lift x : ExceptT ε (StateM σ) α).run s = (.ok (x s).1, (x s).2) := rfl
  rw [hl, h]

/-- A computation only looks at its state, which tells its result. -/
def Looks (x : ExceptT ε (StateM σ) α) (r : σ → Except ε α) : Prop := ∀ s, x.run s = (r s, s)

theorem looks_liftM (x : Except ε α) : Looks (liftM x : ExceptT ε (StateM σ) α) fun _ => x :=
  fun _ => by cases x <;> rfl

theorem Looks.bind {x : ExceptT ε (StateM σ) α} {r : σ → Except ε α} {g : α → σ → Except ε β} (hx : Looks x r)
    (hf : ∀ a, Looks (f a) (g a)) : Looks (x >>= f) fun s => r s >>= fun a => g a s := by
  intro s
  have hrun := hx s
  dsimp only
  cases hr : r s with
  | error e =>
    rw [hr] at hrun
    exact run_bind_of_error hrun
  | ok a =>
    rw [hr] at hrun
    rw [run_bind_of_ok hrun]
    exact hf a s

/-- What comes next may look at how a computation has failed. -/
theorem Looks.attempt {ε' : Type} {x : ExceptT ε (StateM σ) α} {r : σ → Except ε α}
    {f : Except ε α → ExceptT ε' (StateM σ) β} (hx : Looks x r) (g : Except ε α → σ → Except ε' β)
    (hf : ∀ a, Looks (f a) (g a)) : Looks (ExceptT.lift x.run >>= f) fun s => g (r s) s := by
  intro s
  rw [run_bind_of_ok (run_lift_of_eq (hx s))]
  exact hf (r s) s

theorem Looks.adapt {ε' : Type} {x : ExceptT ε (StateM σ) α} {r : σ → Except ε α} (h : Looks x r) (e : ε → ε') :
    Looks (x.adapt e) fun s => (r s).mapError e := by
  intro s
  have hrun : (x.adapt e).run s = ((x.run s).1.mapError e, (x.run s).2) := rfl
  rw [hrun, h s]

end State

end TreePlan
