import TreePlan.Proofs.Account.Resolution
import TreePlan.Proofs.FileSystem.Misuse

/-! Giving a node away, from the tokens of its entry to the end of the step. A token that is not resolved stops
the step, with a report if the failure is an expected one. -/

namespace TreePlan

namespace Build

open Account

variable {accounts : Register} {o : Options} {a : Attempt} {index : Nat} {e : Entry} {path : Path}
  {fs gs : FileSystem} {f : Failure}

/-- How a step that gives a node away ends if its call fails. -/
def chownStop (index : Nat) (path : Path) (f : Failure) : Stop :=
  if f.isExpected then
    .located ⟨.creation, index, path, .chown, f.reason,
      "Can't chown " ++ path.toText ++ ": " ++ f.reason⟩
  else .stray f

/-- The first of the tokens of an entry that is not resolved. -/
def Unresolved (accounts : Register) (e : Entry) (f : Failure) : Prop :=
  resolveIn accounts .user e.owner = .error f ∨
    ∃ user, resolveIn accounts .user e.owner = .ok user ∧ resolveIn accounts .group e.group = .error f

/-- The tokens are resolved, but the path is none or a number is out of range, the user's before the
group's. -/
def Unsuited (accounts : Register) (e : Entry) (path : Path) (f : Failure) : Prop :=
  ∃ user group, resolveIn accounts .user e.owner = .ok user ∧ resolveIn accounts .group e.group = .ok group ∧
    (systemBytes path.toText = .error f ∨ ∃ bytes, systemBytes path.toText = .ok bytes ∧
      (OutOfRange .user user f ∨ (∀ f', ¬OutOfRange .user user f') ∧ OutOfRange .group group f))

theorem ownerCheck_eq_error_iff :
    FileSystem.ownerCheck accounts path.toText e.owner e.group = .error f ↔
      Unresolved accounts e f ∨ Unsuited accounts e path f := by
  have hlast {kind : AccountKind} {id : Int} :
      (checked kind id >>= fun _ => pure ()) = .error f ↔ OutOfRange kind id f := by
    rw [bind_eq_error_iff, checked_eq_error_iff]
    simp [pure, Except.pure]
  have hrange {user group : Int} :
      (checked .user user >>= fun _ => checked .group group >>= fun _ => pure ()) = .error f ↔
        OutOfRange .user user f ∨ (∀ f', ¬OutOfRange .user user f') ∧ OutOfRange .group group f := by
    rw [bind_eq_error_iff, checked_eq_error_iff, ← exists_checked_eq_ok_iff]
    simp only [hlast, exists_and_right]
  unfold FileSystem.ownerCheck
  rw [bind_eq_error_iff]
  constructor
  · rintro (hu | ⟨user, hu, h⟩)
    · exact .inl (.inl hu)
    · rcases bind_eq_error_iff.1 h with hg | ⟨group, hg, h⟩
      · exact .inl (.inr ⟨user, hu, hg⟩)
      · refine .inr ⟨user, group, hu, hg, ?_⟩
        exact (bind_eq_error_iff.1 h).imp_right fun ⟨bytes, hb, h⟩ => ⟨bytes, hb, hrange.1 h⟩
  · rintro ((hu | ⟨user, hu, hg⟩) | ⟨user, group, hu, hg, h⟩)
    · exact .inl hu
    · exact .inr ⟨user, hu, bind_eq_error_iff.2 (.inl hg)⟩
    · refine .inr ⟨user, hu, bind_eq_error_iff.2 (.inr ⟨group, hg, bind_eq_error_iff.2 ?_⟩)⟩
      exact h.imp_right fun ⟨bytes, hb, h⟩ => ⟨bytes, hb, hrange.2 h⟩

theorem tell_run (o : Options) (a : Attempt) (error : Option Text) (fs : FileSystem) :
    (tell o a error).run.perform (FileSystem.answerIn accounts) fs = (.ok (), fs) := by
  unfold tell
  cases o.observed with
  | false | true => rfl

theorem settle_run (o : Options) (a : Attempt) (f : Failure) (fs : FileSystem) :
    (settle o a true (.error f)).run.perform (FileSystem.answerIn accounts) fs =
      (.error (if f.isExpected then .located (a.located f.reason) else .stray f), fs) := by
  cases hf : f.isExpected with
  | false =>
    rw [settle, if_neg (by simp [hf])]
    rfl
  | true =>
    have hthen {α β : Type} (x : StateM FileSystem α) (g : α → StateM FileSystem β) :
        (x >>= g) fs = g (x fs).1 (x fs).2 := rfl
    rw [settle, if_pos hf, ExceptT.run_bind, Run.perform_bind, hthen, tell_run]
    rfl

/-- The step is the call and what is made of its answer. -/
theorem setOwner_run (h : e.hasOwnership = true) :
    (setOwner o index e path).run.perform (FileSystem.answerIn accounts) fs =
      match fs.setOwnerIn accounts path.toText e.owner e.group (!e.isSymlink) with
      | .ok gs => (.ok (), gs)
      | .error f => (.error (chownStop index path f), fs) := by
  have hcall : FileSystem.answerIn accounts (.setOwner path e.owner e.group (!e.isSymlink)) fs =
      match fs.setOwnerIn accounts path.toText e.owner e.group (!e.isSymlink) with
      | .ok gs => (.ok (), gs)
      | .error f => (.error f, fs) := rfl
  -- whatever the call is, its answer is settled on the file system that it leaves
  have hstep {a : Attempt} {c : Call} {r : Answer × FileSystem} (hc : FileSystem.answerIn accounts c fs = r) :
      (attempt o a c).run.perform (FileSystem.answerIn accounts) fs =
        (settle o a true r.1).run.perform (FileSystem.answerIn accounts) r.2 := by
    subst hc
    rfl
  rw [setOwner, if_pos h, hstep hcall]
  cases fs.setOwnerIn accounts path.toText e.owner e.group (!e.isSymlink) with
  | ok gs => exact tell_run o _ none gs
  | error f => exact settle_run o _ f fs

theorem chownStop_eq_stray_iff {f' : Failure} :
    chownStop index path f' = .stray f ↔ f' = f ∧ f.isExpected = false := by
  unfold chownStop
  split
  · next hf =>
    simp only [reduceCtorEq, false_iff, not_and]
    rintro rfl
    simp [hf]
  · next hf =>
    rw [Stop.stray.injEq]
    refine ⟨fun he => ⟨he, ?_⟩, And.left⟩
    simpa [he] using hf

theorem Unresolved.hasOwnership (h : Unresolved accounts e f) : e.hasOwnership = true := by
  by_contra hn
  obtain ⟨ho, hg⟩ : e.owner = none ∧ e.group = none := by simpa [Entry.hasOwnership] using hn
  rw [Unresolved, ho, hg] at h
  rcases h with h | ⟨_, -, h⟩
  · cases h
  · cases h

/-- A step leaves a run without a report just where a token or what it stands for is at fault and the failure
is no expected one. -/
theorem setOwner_eq_stray_iff :
    (setOwner o index e path).run.perform (FileSystem.answerIn accounts) fs = (.error (.stray f), gs) ↔
      gs = fs ∧ e.hasOwnership = true ∧ f.isExpected = false ∧
        (Unresolved accounts e f ∨ Unsuited accounts e path f) := by
  have hchecks := FileSystem.checks_setOwnerIn accounts fs path.toText e.owner e.group (!e.isSymlink)
  by_cases h : e.hasOwnership = true
  · rw [setOwner_run h, ← ownerCheck_eq_error_iff]
    simp only [h, true_and]
    constructor
    · intro hr
      split at hr
      · cases hr
      · next f' hf' =>
        obtain ⟨hstop, rfl⟩ := Prod.mk.inj hr
        obtain ⟨rfl, hf⟩ := chownStop_eq_stray_iff.1 (Except.error.inj hstop)
        exact ⟨rfl, hf, (hchecks.unexpected_iff hf).1 hf'⟩
    · rintro ⟨rfl, hf, hcheck⟩
      rw [hchecks.fails f hcheck]
      dsimp only
      rw [chownStop_eq_stray_iff.2 ⟨rfl, hf⟩]
  · have hrun : (setOwner o index e path).run.perform (FileSystem.answerIn accounts) fs = (.ok (), fs) := by
      rw [setOwner, if_neg h]
      rfl
    rw [hrun]
    refine iff_of_false ?_ fun hstray => h hstray.2.1
    intro hr
    cases hr

/-- A token is resolved to the number that its decimal digits denote or to that of the account it names. Else
there is no such account, or the token has a defect, which is no failed look-up. The first token of an entry that
is not resolved stops the step that gives its node away, and nothing has changed. Such a step goes unreported for
defects other than characters without bytes, for a path that cannot be, and for numbers that no account has. -/
theorem tokens_resolve_or_stop (accounts : Register) :
    (∀ kind token,
      (∀ id, resolveIn accounts kind (some token) = .ok id ↔
        IsNumeral token ∧ id = Numeral.denoted token ∨ IsNaming token ∧ accounts kind token = some id) ∧
      ∀ f, resolveIn accounts kind (some token) = .error f ↔
        (IsNaming token ∧ accounts kind token = none) ∧ f = .unknownAccount kind token ∨ Defect token f) ∧
    (∀ token f, Defect token f →
      f.kind ≠ .lookup ∧ (f.isExpected = true ↔ ∃ c ∈ token, c.IsLone ∧ ¬IsNumber token)) ∧
    (∀ o index e path fs f, Unresolved accounts e f →
      (setOwner o index e path).run.perform (FileSystem.answerIn accounts) fs =
        (.error (chownStop index path f), fs)) ∧
    ∀ o index e path fs gs f,
      (setOwner o index e path).run.perform (FileSystem.answerIn accounts) fs = (.error (.stray f), gs) ↔
        gs = fs ∧ e.hasOwnership = true ∧ f.isExpected = false ∧
          (Unresolved accounts e f ∨ Unsuited accounts e path f) := by
  refine ⟨fun kind token => ⟨fun id => resolveIn_eq_ok_iff, fun f => resolveIn_eq_error_iff⟩,
    fun token f h => h.not_lookup, fun o index e path fs f h => ?_,
    fun o index e path fs gs f => setOwner_eq_stray_iff⟩
  have hcheck : FileSystem.ownerCheck accounts path.toText e.owner e.group = .error f :=
    ownerCheck_eq_error_iff.2 (.inl h)
  rw [setOwner_run h.hasOwnership, (FileSystem.checks_setOwnerIn ..).fails f hcheck]

/-- A superscript is a digit that denotes nothing, so a file can be given to `٣٤` and not to `²`. -/
theorem tokens_resolve_or_stop_superscript :
    resolveIn sole .user (some "٣٤") = .ok 34 ∧ resolveIn sole .group (some "root") = .ok 0 ∧
      Unresolved sole { name := "f", level := 0, line := 1, owner := some "²" }
        (.numeral "²" .malformed) ∧
      (setOwner {} 0 { name := "f", level := 0, line := 1, owner := some "²" } (.ofText "f")).run.perform
          (FileSystem.answerIn sole) ⟨[], []⟩ =
        (.error (.stray (.numeral "²" .malformed)), ⟨[], []⟩) := by
  obtain ⟨hresolve, -, hstop, -⟩ := tokens_resolve_or_stop sole
  have hsuperscript : Account.Defect "²" (.numeral "²" .malformed) :=
    @Defect.undenoting _ [] [] (CodePoint.ofChar '²')
      ⟨by decide, List.forall_mem_singleton.2 (by decide)⟩ rfl (by simp) (by decide) (by decide)
  have hroot : IsNaming "root" := by
    refine ⟨?_, ?_, by decide⟩
    · rintro ⟨-, hdigits⟩
      exact absurd (hdigits _ List.mem_cons_self) (by decide)
    · exact Utf8.nameFault?_eq_none_iff.1 rfl
  have hunresolved : Unresolved sole { name := "f", level := 0, line := 1, owner := some "²" }
      (.numeral "²" .malformed) :=
    .inl (((hresolve .user "²").2 _).2 (.inr hsuperscript))
  have hnumeral : IsNumeral "٣٤" :=
    ⟨by decide, List.forall_mem_cons.2 ⟨by decide, List.forall_mem_singleton.2 (by decide)⟩, by decide⟩
  exact ⟨((hresolve .user "٣٤").1 _).2 (.inl ⟨hnumeral, by decide⟩),
    ((hresolve .group "root").1 _).2 (.inr ⟨hroot, rfl⟩), hunresolved, hstop _ _ _ _ _ _ hunresolved⟩

end Build

end TreePlan
