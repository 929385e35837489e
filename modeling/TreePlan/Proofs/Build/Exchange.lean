import TreePlan.Build.Entries

/-! What a run says to whatever carries it out: the calls it makes with the answers it gets, in their
order. `Run.Ends` admits every answer, so what holds of all ends of a run holds of it on a file system,
on a machine and under every script of failures. -/

namespace TreePlan

/-- A call and the answer to it. -/
abbrev Exchange := Call × Answer

namespace Run

variable {α β σ : Type}

/-- The run can have these exchanges, one after the other, and end with this result. -/
inductive Ends : Run α → List Exchange → α → Prop where
  | done (a : α) : Ends (.done a) [] a
  | ask {c : Call} {next : Answer → Run α} {answer : Answer} {log : List Exchange} {a : α} :
      Ends (next answer) log a → Ends (.ask c next) ((c, answer) :: log) a

/-- The first call succeeds. -/
theorem Ends.well {c : Call} {next : Answer → Run α} {log : List Exchange} {a : α}
    (h : Ends (next (.ok ())) log a) : Ends (.ask c next) ((c, .ok ()) :: log) a := .ask h

theorem ends_pure {a b : α} {log : List Exchange} :
    Ends (pure a) log b ↔ log = [] ∧ b = a := by
  refine ⟨?_, ?_⟩
  · intro h
    cases h
    exact ⟨rfl, rfl⟩
  · intro h
    obtain ⟨rfl, rfl⟩ := h
    exact .done _

theorem Ends.bind {run : Run α} {f : α → Run β} {l₁ l₂ : List Exchange} {a : α} {b : β}
    (h₁ : Ends run l₁ a) (h₂ : Ends (f a) l₂ b) : Ends (run >>= f) (l₁ ++ l₂) b := by
  induction h₁ with
  | done a => exact h₂
  | ask _ ih => exact .ask (ih h₂)

/-- What two runs in sequence exchange is what the first does and then what the second does. -/
theorem ends_bind {run : Run α} {f : α → Run β} {log : List Exchange} {b : β} :
    Ends (run >>= f) log b ↔
      ∃ l₁ a l₂, Ends run l₁ a ∧ Ends (f a) l₂ b ∧ log = l₁ ++ l₂ := by
  refine ⟨?_, ?_⟩
  · intro h
    induction run generalizing log with
    | done a => exact ⟨[], a, log, .done a, h, rfl⟩
    | ask c next ih =>
      cases h with
      | @ask _ _ answer log _ h =>
        obtain ⟨l₁, a, l₂, h₁, h₂, rfl⟩ := ih answer h
        exact ⟨(c, answer) :: l₁, a, l₂, .ask h₁, h₂, rfl⟩
  · intro h
    obtain ⟨l₁, a, l₂, h₁, h₂, rfl⟩ := h
    exact h₁.bind h₂

/-- Whatever answers from a state takes these exchanges from one state to the other. -/
inductive Replays (answer : Call → StateM σ Answer) : σ → List Exchange → σ → Prop where
  | nil (s : σ) : Replays answer s [] s
  | cons {c : Call} {a : Answer} {log : List Exchange} {s t u : σ} :
      answer c s = (a, t) → Replays answer t log u → Replays answer s ((c, a) :: log) u

theorem replays_nil {answer : Call → StateM σ Answer} {s t : σ} :
    Replays answer s [] t ↔ t = s := by
  refine ⟨?_, ?_⟩
  · intro h
    cases h
    rfl
  · rintro rfl
    exact .nil _

theorem replays_cons {answer : Call → StateM σ Answer} {x : Exchange} {log : List Exchange}
    {s u : σ} :
    Replays answer s (x :: log) u ↔ ∃ t, answer x.1 s = (x.2, t) ∧ Replays answer t log u := by
  refine ⟨?_, ?_⟩
  · intro h
    cases h with
    | cons h hr => exact ⟨_, h, hr⟩
  · intro h
    obtain ⟨t, h, hr⟩ := h
    exact .cons h hr

theorem replays_append {answer : Call → StateM σ Answer} {l₁ l₂ : List Exchange} {s u : σ} :
    Replays answer s (l₁ ++ l₂) u ↔ ∃ t, Replays answer s l₁ t ∧ Replays answer t l₂ u := by
  induction l₁ generalizing s with
  | nil => simp [replays_nil]
  | cons x l₁ ih =>
    simp only [List.cons_append, replays_cons, ih]
    refine ⟨?_, ?_⟩
    · intro h
      obtain ⟨t, h, t', h₁, h₂⟩ := h
      exact ⟨t', ⟨t, h, h₁⟩, h₂⟩
    · intro h
      obtain ⟨t', ⟨t, h, h₁⟩, h₂⟩ := h
      exact ⟨t, h, t', h₁, h₂⟩

/-- To perform a run from a state is to let it end with exchanges that the state accounts for. -/
theorem perform_eq_iff {answer : Call → StateM σ Answer} {run : Run α} {s t : σ} {a : α} :
    run.perform answer s = (a, t) ↔ ∃ log, Ends run log a ∧ Replays answer s log t := by
  induction run generalizing s with
  | done b =>
    refine ⟨?_, ?_⟩
    · rintro ⟨⟩
      exact ⟨[], .done _, .nil _⟩
    · intro h
      obtain ⟨log, h, hr⟩ := h
      cases h
      cases hr
      rfl
  | ask c next ih =>
    have step : (ask c next).perform answer s =
        (next (answer c s).1).perform answer (answer c s).2 := rfl
    rw [step, ih]
    refine ⟨?_, ?_⟩
    · intro h
      obtain ⟨log, h, hr⟩ := h
      exact ⟨_, .ask h, .cons rfl hr⟩
    · intro h
      obtain ⟨log, h, hr⟩ := h
      cases h with
      | ask h =>
        obtain ⟨u, hu, hr⟩ := replays_cons.1 hr
        simp only at hu
        rw [hu]
        exact ⟨_, h, hr⟩

end Run

/-- Answers each call in view of all exchanges before it. -/
abbrev Script := List Exchange → Call → Answer

namespace Script

/-- Answers as the script says and keeps the record. -/
def answer (script : Script) (c : Call) : StateM (List Exchange) Answer := fun past =>
  (script past c, past ++ [(c, script past c)])

/-- No call fails. -/
def smooth : Script := fun _ _ => .ok ()

theorem replays_answer {script : Script} {past log now : List Exchange}
    (h : Run.Replays script.answer past log now) : now = past ++ log := by
  induction h with
  | nil past => simp
  | cons h _ ih =>
    cases h
    rw [ih, List.append_assoc]
    rfl

theorem smooth_ok {past log now : List Exchange} (h : Run.Replays smooth.answer past log now) :
    ∀ x ∈ log, x.2 = .ok () := by
  induction h with
  | nil => simp
  | cons h _ ih =>
    cases h
    simpa [smooth] using ih

end Script

namespace Run

variable {α : Type}

/-- The result of a run under a script, and what was exchanged. -/
def play (script : Script) (run : Run α) : α × List Exchange := run.perform script.answer []

theorem replays_play (script : Script) (run : Run α) :
    Ends run (run.play script).2 (run.play script).1 ∧
      Replays script.answer [] (run.play script).2 (run.play script).2 := by
  obtain ⟨log, h, hr⟩ :=
    perform_eq_iff.1 (show run.perform script.answer [] = (_, _) from rfl)
  have hlog : (run.play script).2 = log := Script.replays_answer hr
  rw [hlog]
  exact ⟨h, hlog ▸ hr⟩

theorem ends_play (script : Script) (run : Run α) :
    Ends run (run.play script).2 (run.play script).1 := (replays_play script run).1

theorem play_smooth_ok (run : Run α) : ∀ x ∈ (run.play .smooth).2, x.2 = .ok () :=
  Script.smooth_ok (replays_play .smooth run).2

end Run

end TreePlan
