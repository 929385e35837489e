import TreePlan.Layout.Create
import TreePlan.Proofs.Build.PlannedCalls
import TreePlan.Proofs.FileSystem.Growth

/-! The steps of a run carried out on a file system, and with them the whole of building a layout as
steps on a file system. -/

namespace TreePlan

namespace Build

open FileSystem (effect)

/-- Steps in their turn take one file system to the other. -/
def CarriedOut (steps : List Step) (fs : FileSystem) (out : Option Stop) (gs : FileSystem) : Prop :=
  ∃ log, Follow steps log out ∧ Run.Replays FileSystem.answer fs log gs

variable {steps s₁ s₂ : List Step} {fs gs : FileSystem} {out : Option Stop} {index : Nat} {c : Call}
  {f : Failure}

theorem carriedOut_nil : CarriedOut [] fs out gs ↔ out = none ∧ gs = fs := by
  refine ⟨?_, ?_⟩
  · intro h
    obtain ⟨log, hf, hr⟩ := h
    obtain ⟨rfl, rfl⟩ := follow_nil.1 hf
    exact ⟨rfl, Run.replays_nil.1 hr⟩
  · intro h
    obtain ⟨rfl, rfl⟩ := h
    exact ⟨[], .done, .nil _⟩

theorem carriedOut_cons : CarriedOut (⟨index, .ok c⟩ :: steps) fs out gs ↔
    (∃ hs, effect c fs = .ok hs ∧ CarriedOut steps hs out gs) ∨
      ∃ f s, effect c fs = .error f ∧ Stops index f s ∧ out = some s ∧ gs = fs := by
  refine ⟨?_, ?_⟩
  · intro h
    obtain ⟨log, hf, hr⟩ := h
    cases hf with
    | ok hf =>
      obtain ⟨hs, ha, hrest⟩ := Run.replays_cons.1 hr
      exact .inl ⟨hs, FileSystem.answer_eq_ok_iff.1 ha, _, hf, hrest⟩
    | fails hf =>
      obtain ⟨hs, ha, hrest⟩ := Run.replays_cons.1 hr
      obtain ⟨he, rfl⟩ := FileSystem.answer_eq_error_iff.1 ha
      exact .inr ⟨_, _, he, hf, rfl, Run.replays_nil.1 hrest⟩
  · intro h
    rcases h with ⟨hs, he, log, hf, hr⟩ | ⟨f, s, he, hf, rfl, rfl⟩
    · exact ⟨_, .ok hf, .cons (FileSystem.answer_eq_ok_iff.2 he) hr⟩
    · exact ⟨_, .fails hf, .cons (FileSystem.answer_eq_error_iff.2 ⟨he, rfl⟩) (.nil _)⟩

theorem carriedOut_cons_error : CarriedOut (⟨index, .error f⟩ :: steps) fs out gs ↔
    ∃ s, Stops index f s ∧ out = some s ∧ gs = fs := by
  refine ⟨?_, ?_⟩
  · intro h
    obtain ⟨log, hf, hr⟩ := h
    cases hf with
    | unmade hf => exact ⟨_, hf, rfl, Run.replays_nil.1 hr⟩
  · intro h
    obtain ⟨s, hf, rfl, rfl⟩ := h
    exact ⟨[], .unmade hf, .nil _⟩

theorem carriedOut_append : CarriedOut (s₁ ++ s₂) fs out gs ↔
    (∃ s, out = some s ∧ CarriedOut s₁ fs (some s) gs) ∨
      ∃ hs, CarriedOut s₁ fs none hs ∧ CarriedOut s₂ hs out gs := by
  refine ⟨?_, ?_⟩
  · intro h
    obtain ⟨log, hf, hr⟩ := h
    rcases follow_append.1 hf with ⟨s, rfl, hf₁⟩ | ⟨l₁, l₂, rfl, hf₁, hf₂⟩
    · exact .inl ⟨s, rfl, log, hf₁, hr⟩
    · obtain ⟨hs, hr₁, hr₂⟩ := Run.replays_append.1 hr
      exact .inr ⟨hs, ⟨l₁, hf₁, hr₁⟩, l₂, hf₂, hr₂⟩
  · intro h
    rcases h with ⟨s, rfl, log, hf, hr⟩ | ⟨hs, ⟨l₁, hf₁, hr₁⟩, l₂, hf₂, hr₂⟩
    · exact ⟨log, hf.stop_append s₂, hr⟩
    · exact ⟨l₁ ++ l₂, hf₁.append hf₂, Run.replays_append.2 ⟨hs, hr₁, hr₂⟩⟩

/-- Visits lead on or stop the run, but change nothing. -/
theorem carriedOut_visits {paths : List Path} (h : CarriedOut (visits index paths) fs out gs) :
    gs = fs := by
  induction paths with
  | nil => exact (carriedOut_nil.1 h).2
  | cons p paths ih =>
    rcases carriedOut_cons.1 h with ⟨hs, he, hrest⟩ | ⟨f, s, -, -, -, rfl⟩
    · obtain rfl := FileSystem.visit_eq_ok he
      exact ih hrest
    · rfl

/-- A stop is located at the entry of one of the steps. -/
theorem CarriedOut.index_eq {l : Located} (h : CarriedOut steps fs (some (.located l)) gs)
    (hi : ∀ step ∈ steps, step.index = index) : l.index = index := by
  obtain ⟨log, hf, -⟩ := h
  generalize hout : some (Stop.located l) = out at hf
  induction hf with
  | done => cases hout
  | ok _ ih => exact ih (fun step hs => hi step (by simp [hs])) hout
  | fails hf | unmade hf =>
    cases hf with
    | located _ hl =>
      cases hout
      exact hl.trans (hi _ List.mem_cons_self)
    | stray => cases hout

theorem replays_heard {log : List Exchange} (h : Run.Replays FileSystem.answer fs log gs) :
    Quiet log ∧ Run.Replays FileSystem.answer fs (heard log) gs := by
  induction h with
  | nil fs => exact ⟨fun x hx => by simp at hx, .nil fs⟩
  | @cons c a log fs hs gs ha _ ih =>
    obtain ⟨hq, hr⟩ := ih
    cases hc : c.isPrimitive with
    | true =>
      refine ⟨fun x hx hx' => ?_, ?_⟩
      · rcases List.mem_cons.1 hx with rfl | hx
        · rw [hc] at hx'
          simp at hx'
        · exact hq x hx hx'
      · rw [heard, List.filter_cons_of_pos (by simpa using hc)]
        exact .cons ha hr
    | false =>
      obtain ⟨rfl, rfl⟩ := FileSystem.answer_of_not_primitive hc ha
      refine ⟨fun x hx hx' => ?_, ?_⟩
      · rcases List.mem_cons.1 hx with rfl | hx
        · rfl
        · exact hq x hx hx'
      · rw [heard, List.filter_cons_of_neg (by simp [hc])]
        exact hr

/-- Building entries on a file system carries out the steps of their plan. -/
theorem entries_carriedOut {o : Options} {root : Path} {es : List Entry}
    {r : Except Stop (List Path)} (hn : Layout.Nested es) (hsound : ∀ e ∈ es, e.IsSound)
    (h : (Build.entries o root es).perform FileSystem.answer fs = (r, gs)) :
    ∃ out : Option Stop, CarriedOut (Plan.steps root o.encoding es) fs out gs ∧
      r = out.elim (.ok (Plan.paths root es)) .error := by
  obtain ⟨log, hends, hr⟩ := Run.perform_eq_iff.1 h
  obtain ⟨hq, hr⟩ := replays_heard hr
  obtain ⟨out, hf, he⟩ := takes_entries o root hn hsound log r hends hq
  exact ⟨out, ⟨_, hf, hr⟩, he⟩

end Build

end TreePlan
