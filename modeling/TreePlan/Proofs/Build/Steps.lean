import TreePlan.Proofs.Build.Tracking

/-! The steps of a run over the entries of a layout. `Takes` says which steps a part of a run takes,
however they turn out; the parts are put together as the run puts them. -/

namespace TreePlan

open Run (Ends)

namespace Build

/-- What a run does next for an entry: a call, or a failure in place of one. -/
structure Step where
  index : Nat
  call : Except Failure Call

/-- What comes of a failure in a step: one that is expected is located at the entry. -/
inductive Stops (index : Nat) (f : Failure) : Stop → Prop where
  | located {l : Located} : f.isExpected = true → l.index = index → Stops index f (.located l)
  | stray : f.isExpected = false → Stops index f (.stray f)

/-- Steps in their turn up to the first that fails, with what they exchange. -/
inductive Follow : List Step → List Exchange → Option Stop → Prop where
  | done : Follow [] [] none
  | ok {index : Nat} {c : Call} {steps : List Step} {log : List Exchange} {out : Option Stop} :
      Follow steps log out → Follow (⟨index, .ok c⟩ :: steps) ((c, .ok ()) :: log) out
  | fails {index : Nat} {c : Call} {steps : List Step} {f : Failure} {s : Stop} :
      Stops index f s → Follow (⟨index, .ok c⟩ :: steps) [(c, .error f)] (some s)
  | unmade {index : Nat} {steps : List Step} {f : Failure} {s : Stop} :
      Stops index f s → Follow (⟨index, .error f⟩ :: steps) [] (some s)

variable {s₁ s₂ : List Step} {l₁ l₂ log : List Exchange} {out : Option Stop}

theorem follow_nil : Follow [] log out ↔ log = [] ∧ out = none := by
  refine ⟨?_, ?_⟩
  · intro h
    cases h
    exact ⟨rfl, rfl⟩
  · intro h
    obtain ⟨rfl, rfl⟩ := h
    exact .done

theorem Follow.append (h : Follow s₁ l₁ none) (h' : Follow s₂ l₂ out) :
    Follow (s₁ ++ s₂) (l₁ ++ l₂) out := by
  generalize hn : (none : Option Stop) = o at h
  induction h with
  | done => exact h'
  | ok _ ih => exact .ok (ih hn)
  | fails => cases hn
  | unmade => cases hn

theorem Follow.stop_append {s : Stop} (h : Follow s₁ log (some s)) (s₂ : List Step) :
    Follow (s₁ ++ s₂) log (some s) := by
  generalize hs : some s = o at h
  induction h with
  | done => cases hs
  | ok _ ih => exact .ok (ih hs)
  | fails h =>
    cases hs
    exact .fails h
  | unmade h =>
    cases hs
    exact .unmade h

theorem follow_append : Follow (s₁ ++ s₂) log out ↔
    (∃ s, out = some s ∧ Follow s₁ log (some s)) ∨
      ∃ l₁ l₂, log = l₁ ++ l₂ ∧ Follow s₁ l₁ none ∧ Follow s₂ l₂ out := by
  refine ⟨?_, ?_⟩
  · intro h
    induction s₁ generalizing log with
    | nil => exact .inr ⟨[], log, rfl, .done, h⟩
    | cons step s₁ ih =>
      cases h with
      | ok h =>
        rcases ih h with ⟨s, rfl, hs⟩ | ⟨l₁, l₂, rfl, hs, h'⟩
        · exact .inl ⟨s, rfl, .ok hs⟩
        · exact .inr ⟨_ :: l₁, l₂, rfl, .ok hs, h'⟩
      | fails h => exact .inl ⟨_, rfl, .fails h⟩
      | unmade h => exact .inl ⟨_, rfl, .unmade h⟩
  · intro h
    rcases h with ⟨s, rfl, h⟩ | ⟨l₁, l₂, rfl, h, h'⟩
    · exact h.stop_append s₂
    · exact h.append h'

/-- Steps of which none has failed were all calls. -/
theorem Follow.map_fst (h : Follow s₁ log none) :
    s₁.map Step.call = log.map fun x => .ok x.1 := by
  generalize hn : (none : Option Stop) = o at h
  induction h with
  | done => rfl
  | ok _ ih => rw [List.map_cons, List.map_cons, ih hn]
  | fails => cases hn
  | unmade => cases hn

/-- Where all is well nothing stops the steps but a failure in place of a call. -/
theorem Follow.smooth (h : Follow s₁ log out) (hok : ∀ x ∈ log, x.2 = .ok ())
    (hcalls : ∀ step ∈ s₁, ∃ c, step.call = .ok c) : out = none := by
  induction h with
  | done => rfl
  | ok _ ih => exact ih (fun x hx => hok x (by simp [hx])) fun step hs => hcalls step (by simp [hs])
  | fails => cases hok _ (List.mem_singleton.2 rfl)
  | unmade =>
    obtain ⟨c, hc⟩ := hcalls _ List.mem_cons_self
    simp at hc

/-- The exchanges with the file system. -/
def heard (log : List Exchange) : List Exchange := log.filter fun x => x.1.isPrimitive

theorem heard_append (l₁ l₂ : List Exchange) : heard (l₁ ++ l₂) = heard l₁ ++ heard l₂ := by
  simp [heard]

/-- Neither an observer nor the closing of a file has failed. -/
def Quiet (log : List Exchange) : Prop := ∀ x ∈ log, x.1.isPrimitive = false → x.2 = .ok ()

theorem quiet_append : Quiet (l₁ ++ l₂) ↔ Quiet l₁ ∧ Quiet l₂ := by
  unfold Quiet
  rw [List.forall_mem_append]

variable {α β : Type}

/-- However a part of a run goes, it follows these steps and comes to this result unless one fails. -/
def Takes (b : Build α) (steps : List Step) (a : α) : Prop :=
  ∀ log r, Ends b.run log r → Quiet log →
    ∃ out : Option Stop, Follow steps (heard log) out ∧ r = out.elim (.ok a) .error

theorem takes_pure (a : α) : Takes (pure a) [] a := by
  intro log r he _
  obtain ⟨rfl, rfl⟩ := ends_pure.1 he
  exact ⟨none, .done, rfl⟩

theorem Takes.bind {b : Build α} {f : α → Build β} {a : α} {a' : β} (hb : Takes b s₁ a)
    (hf : Takes (f a) s₂ a') : Takes (b >>= f) (s₁ ++ s₂) a' := by
  intro log r he hq
  rcases ends_bind.1 he with ⟨s, h, rfl⟩ | ⟨l₁, x, l₂, h₁, h₂, rfl⟩
  · obtain ⟨out, hs, hr⟩ := hb _ _ h hq
    cases out with
    | none => cases hr
    | some s' =>
      cases hr
      exact ⟨some s, hs.stop_append s₂, rfl⟩
  · obtain ⟨hq₁, hq₂⟩ := quiet_append.1 hq
    obtain ⟨out, hs, hr⟩ := hb _ _ h₁ hq₁
    cases out with
    | some s => cases hr
    | none =>
      cases hr
      obtain ⟨out, hs', hr⟩ := hf _ _ h₂ hq₂
      exact ⟨out, heard_append l₁ l₂ ▸ hs.append hs', hr⟩

theorem takes_tell (o : Options) (a : Attempt) (error : Option Text) : Takes (tell o a error) [] () := by
  unfold tell
  split
  · intro log r he hq
    obtain ⟨answer, l, rfl, h⟩ := ends_call_bind.1 he
    obtain rfl : answer = .ok () := hq _ List.mem_cons_self rfl
    obtain ⟨rfl, rfl⟩ := ends_pure.1 h
    exact ⟨none, .done, rfl⟩
  · exact takes_pure ()

theorem takes_settle_error (o : Options) (a : Attempt) (tells : Bool) (f : Failure) :
    Takes (settle o a tells (.error f)) [⟨a.index, .error f⟩] () := by
  intro log r he hq
  rw [settle] at he
  split at he
  · next hf =>
    rcases ends_bind.1 he with ⟨s, h, rfl⟩ | ⟨l₁, _, l₂, h₁, h₂, rfl⟩
    · obtain ⟨out, hs, hr⟩ := takes_tell o a _ _ _ h hq
      obtain ⟨-, rfl⟩ := follow_nil.1 hs
      simp at hr
    · obtain ⟨out, hs, -⟩ := takes_tell o a _ _ _ h₁ (quiet_append.1 hq).1
      obtain ⟨hl, -⟩ := follow_nil.1 hs
      obtain ⟨rfl, rfl⟩ := ends_throw.1 h₂
      rw [List.append_nil, hl]
      exact ⟨_, .unmade (.located hf rfl), rfl⟩
  · next hf =>
    obtain ⟨rfl, rfl⟩ := ends_throw.1 he
    exact ⟨_, .unmade (.stray (by simpa using hf)), rfl⟩

theorem takes_settle_ok (o : Options) (a : Attempt) (tells : Bool) (u : Unit) :
    Takes (settle o a tells (.ok u)) [] () := by
  rw [settle]
  split
  · exact takes_tell o a none
  · exact takes_pure ()

theorem takes_settled (o : Options) (a : Attempt) (tells : Bool) {c : Call}
    (hc : c.isPrimitive = true) : Takes (call c >>= settle o a tells) [⟨a.index, .ok c⟩] () := by
  intro log r he hq
  obtain ⟨answer, l, rfl, h⟩ := ends_call_bind.1 he
  have hl : Quiet l := fun x hx => hq x (List.mem_cons_of_mem _ hx)
  have hheard : heard ((c, answer) :: l) = (c, answer) :: heard l := List.filter_cons_of_pos hc
  rw [hheard]
  cases answer with
  | ok u =>
    obtain ⟨out, hs, hr⟩ := takes_settle_ok o a tells u _ _ h hl
    exact ⟨out, .ok hs, hr⟩
  | error f =>
    obtain ⟨out, hs, hr⟩ := takes_settle_error o a tells f _ _ h hl
    generalize heard l = heard' at hs ⊢
    cases hs with
    | unmade hs => exact ⟨_, .fails hs, hr⟩

theorem takes_attempt (o : Options) (a : Attempt) {c : Call} (hc : c.isPrimitive = true) :
    Takes (attempt o a c) [⟨a.index, .ok c⟩] () := takes_settled o a true hc

theorem takes_closing {body : Build Unit} {steps : List Step} (path : Path)
    (hb : Takes body steps ()) : Takes (closing path body) steps () := by
  intro log r he hq
  unfold closing at he
  rcases ends_bind.1 he with ⟨s, h, rfl⟩ | ⟨l₁, result, l₂, h₁, h₂, rfl⟩
  · obtain ⟨_, -, hr⟩ := ends_lift.1 h
    simp at hr
  · obtain ⟨_, hbody, hr⟩ := ends_lift.1 h₁
    cases hr
    obtain ⟨hq₁, hq₂⟩ := quiet_append.1 hq
    obtain ⟨answer, l, rfl, h⟩ := ends_call_bind.1 h₂
    obtain rfl : answer = .ok () := hq₂ _ List.mem_cons_self rfl
    obtain ⟨rfl, rfl⟩ := Run.ends_pure.1 h
    obtain ⟨out, hs, hr⟩ := hb _ _ hbody hq₁
    refine ⟨out, ?_, hr⟩
    rw [heard_append]
    simpa [heard, Call.isPrimitive] using hs

end Build

end TreePlan
