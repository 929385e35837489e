import TreePlan.Proofs.Build.Exchange

/-! How the parts of a run over entries end. Each part has a lemma that says what it exchanges and
what comes of it, and `Course` keeps the exchanges of each entry by themselves. -/

namespace TreePlan

open Run (Ends)

namespace Call

/-- The path that a call is about. -/
def path? : Call → Option Path
  | .visit p | .makeDirectory p _ | .createFile p | .write p _ | .close p | .setMode p _
  | .link _ p | .setOwner p _ _ _ => some p
  | .observe _ => none

def isVisit : Call → Bool
  | .visit _ => true
  | _ => false

/-- Whether a call asks something of the file system; to close a file and to tell an observer do not
count. -/
def isPrimitive : Call → Bool
  | .close _ | .observe _ => false
  | _ => true

end Call

namespace Build

variable {α β : Type} {log : List Exchange}

theorem ends_pure {a : α} {r : Except Stop α} :
    Ends (pure a : Build α).run log r ↔ log = [] ∧ r = .ok a := Run.ends_pure

theorem ends_throw {s : Stop} {r : Except Stop α} :
    Ends (throw s : Build α).run log r ↔ log = [] ∧ r = .error s := Run.ends_pure

theorem ends_bind {b : Build α} {f : α → Build β} {r : Except Stop β} :
    Ends (b >>= f).run log r ↔
      (∃ s, Ends b.run log (.error s) ∧ r = .error s) ∨
        ∃ l₁ a l₂, Ends b.run l₁ (.ok a) ∧ Ends (f a).run l₂ r ∧ log = l₁ ++ l₂ := by
  rw [ExceptT.run_bind, Run.ends_bind]
  refine ⟨?_, ?_⟩
  · intro h
    obtain ⟨l₁, x, l₂, h₁, h₂, rfl⟩ := h
    cases x with
    | error s =>
      obtain ⟨rfl, rfl⟩ := Run.ends_pure.1 h₂
      exact .inl ⟨s, by simpa using h₁, rfl⟩
    | ok a => exact .inr ⟨l₁, a, l₂, h₁, h₂, rfl⟩
  · intro h
    rcases h with ⟨s, h, rfl⟩ | ⟨l₁, a, l₂, h₁, h₂, rfl⟩
    · exact ⟨log, .error s, [], h, Run.ends_pure.2 ⟨rfl, rfl⟩, by simp⟩
    · exact ⟨l₁, .ok a, l₂, h₁, h₂, rfl⟩

theorem ends_call_bind {c : Call} {f : Answer → Build β} {r : Except Stop β} :
    Ends (call c >>= f).run log r ↔ ∃ answer l, log = (c, answer) :: l ∧ Ends (f answer).run l r := by
  refine ⟨?_, ?_⟩
  · intro h
    cases h with
    | ask h => exact ⟨_, _, rfl, h⟩
  · intro h
    obtain ⟨answer, l, rfl, h⟩ := h
    exact .ask h

theorem ends_lift {run : Run α} {r : Except Stop α} :
    Ends (ExceptT.lift run : Build α).run log r ↔ ∃ a, Ends run log a ∧ r = .ok a := by
  rw [ExceptT.run_lift, map_eq_pure_bind, Run.ends_bind]
  refine ⟨?_, ?_⟩
  · intro h
    obtain ⟨l₁, a, l₂, h₁, h₂, rfl⟩ := h
    obtain ⟨rfl, rfl⟩ := Run.ends_pure.1 h₂
    exact ⟨a, by simpa using h₁, rfl⟩
  · intro h
    obtain ⟨a, h, rfl⟩ := h
    exact ⟨log, a, [], h, Run.ends_pure.2 ⟨rfl, rfl⟩, by simp⟩

/-- However the calls are answered, each call made is a good one, and so is what comes of them. -/
def Ensures (b : Build α) (good : Call → Prop) (post : α → Prop) : Prop :=
  ∀ log r, Ends b.run log r → (∀ x ∈ log, good x.1) ∧ ∀ a, r = .ok a → post a

variable {good : Call → Prop} {post : α → Prop}

theorem ensures_pure {a : α} (h : post a) : Ensures (pure a) good post := by
  intro log r he
  obtain ⟨rfl, rfl⟩ := ends_pure.1 he
  exact ⟨by simp, by simpa using h⟩

theorem ensures_throw (s : Stop) : Ensures (throw s : Build α) good post := by
  intro log r he
  obtain ⟨rfl, rfl⟩ := ends_throw.1 he
  exact ⟨by simp, by simp⟩

theorem Ensures.bind {b : Build α} {f : α → Build β} {mid : α → Prop} {post : β → Prop}
    (hb : Ensures b good mid) (hf : ∀ a, mid a → Ensures (f a) good post) :
    Ensures (b >>= f) good post := by
  intro log r he
  rcases ends_bind.1 he with ⟨s, h, rfl⟩ | ⟨l₁, a, l₂, h₁, h₂, rfl⟩
  · exact ⟨(hb _ _ h).1, by simp⟩
  · obtain ⟨hg₁, hm⟩ := hb _ _ h₁
    obtain ⟨hg₂, hp⟩ := hf a (hm a rfl) _ _ h₂
    refine ⟨fun x hx => ?_, hp⟩
    rcases List.mem_append.1 hx with hx | hx
    · exact hg₁ x hx
    · exact hg₂ x hx

theorem ensures_call {c : Call} (h : good c) : Ensures (call c) good fun _ => True := by
  intro log r he
  rw [← bind_pure (call c)] at he
  obtain ⟨answer, l, rfl, hl⟩ := ends_call_bind.1 he
  obtain ⟨rfl, -⟩ := ends_pure.1 hl
  exact ⟨by simpa using h, fun _ _ => trivial⟩

theorem ensures_tell (ho : ∀ e, good (.observe e)) (o : Options) (a : Attempt)
    (error : Option Text) : Ensures (tell o a error) good fun _ => True := by
  unfold tell
  split
  · refine (ensures_call (ho _)).bind fun answer _ => ?_
    cases answer with
    | ok u => exact ensures_pure trivial
    | error f =>
      simp only
      split
      · exact ensures_throw _
      · exact ensures_throw _
  · exact ensures_pure trivial

theorem ensures_settle (ho : ∀ e, good (.observe e)) (o : Options) (a : Attempt) (tells : Bool)
    (answer : Answer) : Ensures (settle o a tells answer) good fun _ => True := by
  cases answer with
  | ok u =>
    simp only [settle]
    split
    · exact ensures_tell ho o a none
    · exact ensures_pure trivial
  | error f =>
    simp only [settle]
    split
    · exact (ensures_tell ho o a _).bind fun _ _ => ensures_throw _
    · exact ensures_throw _

theorem ensures_attempt (ho : ∀ e, good (.observe e)) (o : Options) (a : Attempt) {c : Call}
    (h : good c) : Ensures (attempt o a c) good fun _ => True :=
  (ensures_call h).bind fun answer _ => ensures_settle ho o a true answer

theorem ensures_closing {path : Path} {body : Build Unit} (h : good (.close path))
    (hb : Ensures body good fun _ => True) : Ensures (closing path body) good fun _ => True := by
  have hlift : Ensures (ExceptT.lift body.run : Build (Except Stop Unit)) good fun _ => True := by
    intro log r he
    obtain ⟨a, ha, -⟩ := ends_lift.1 he
    exact ⟨(hb _ _ ha).1, fun _ _ => trivial⟩
  refine hlift.bind fun result _ => (ensures_call h).bind fun answer _ => ?_
  cases answer with
  | error f => exact ensures_throw _
  | ok u =>
    cases result with
    | ok u => exact ensures_pure trivial
    | error s => exact ensures_throw s

/-- How a run over entries goes, with the exchanges of each entry by themselves. -/
inductive Course (o : Options) : Nat → Option Int → Cursor → List Entry → List (List Exchange) →
    Except Stop (List Path) → Prop where
  | finish (index : Nat) (previous : Option Int) (cursor : Cursor) :
      Course o index previous cursor [] [] (.ok [])
  | stop {index : Nat} {previous : Option Int} {cursor : Cursor} {e : Entry} {rest : List Entry}
      {log : List Exchange} {s : Stop} :
      Ends (buildEntry o index previous cursor e).run log (.error s) →
      Course o index previous cursor (e :: rest) [log] (.error s)
  | advance {index : Nat} {previous : Option Int} {cursor next : Cursor} {e : Entry}
      {rest : List Entry} {log : List Exchange} {path : Path} {logs : List (List Exchange)}
      {r : Except Stop (List Path)} :
      Ends (buildEntry o index previous cursor e).run log (.ok (path, next)) →
      Course o (index + 1) (some e.level) next rest logs r →
      Course o index previous cursor (e :: rest) (log :: logs) (r.map (path :: ·))

/-- Each run over entries is a course, and each course a run. -/
theorem ends_buildFrom {o : Options} {index : Nat} {previous : Option Int} {cursor : Cursor}
    {es : List Entry} {r : Except Stop (List Path)} :
    Ends (buildFrom o index previous cursor es).run log r ↔
      ∃ logs, Course o index previous cursor es logs r ∧ log = logs.flatten := by
  induction es generalizing index previous cursor log r with
  | nil =>
    refine ⟨?_, ?_⟩
    · intro h
      obtain ⟨rfl, rfl⟩ := ends_pure.1 h
      exact ⟨[], .finish .., rfl⟩
    · intro h
      obtain ⟨logs, h, rfl⟩ := h
      cases h
      exact ends_pure.2 ⟨rfl, rfl⟩
  | cons e rest ih =>
    rw [buildFrom, ends_bind]
    refine ⟨?_, ?_⟩
    · intro h
      rcases h with ⟨s, h, rfl⟩ | ⟨l₁, ⟨path, next⟩, l₂, h₁, h₂, rfl⟩
      · exact ⟨[log], .stop h, by simp⟩
      · rcases ends_bind.1 h₂ with ⟨s, h, rfl⟩ | ⟨l₃, paths, l₄, h₃, h₄, rfl⟩
        · obtain ⟨logs, hc, rfl⟩ := ih.1 h
          exact ⟨l₁ :: logs, .advance h₁ hc, rfl⟩
        · obtain ⟨logs, hc, rfl⟩ := ih.1 h₃
          obtain ⟨rfl, rfl⟩ := ends_pure.1 h₄
          exact ⟨l₁ :: logs, .advance h₁ hc, by simp⟩
    · intro h
      obtain ⟨logs, h, rfl⟩ := h
      cases h with
      | stop h => exact .inl ⟨_, by simpa using h, rfl⟩
      | @advance _ _ _ next _ _ l path logs r h hc =>
        refine .inr ⟨l, (path, next), logs.flatten, h, ends_bind.2 ?_, by simp⟩
        cases r with
        | error s => exact .inl ⟨s, ih.2 ⟨logs, hc, rfl⟩, rfl⟩
        | ok paths =>
          exact .inr ⟨_, paths, [], ih.2 ⟨logs, hc, rfl⟩, ends_pure.2 ⟨rfl, rfl⟩, by simp⟩

end Build

end TreePlan
