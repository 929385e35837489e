import TreePlan.Proofs.Build.Step

/-! Errands, one after the other. An errand is a call to try, a file to close or a place where a run can't
go on. A run that carries out errands goes from one to the next until one of them fails; the observer is
told of each, and a file that is open is closed on the way out. -/

namespace TreePlan

open Run (Ends)

/-- The file that is open after an exchange, if one was open before. -/
def held (open? : Option Path) : Exchange → Option Path
  | (.createFile path, .ok _) => some path
  | (.close _, _) => none
  | _ => open?

namespace Build

/-- What is on the agenda of a run. -/
inductive Errand where
  | attempt (a : Attempt) (c : Call)
  | close (path : Path)
  /-- A content that can't be encoded is not written. -/
  | unable (a : Attempt) (f : Failure)
  /-- There is no directory to go down into. -/
  | lost (index : Nat) (here : Path)
  | halt (s : Stop)

def lostReason : Text := "No directory to descend into"

def searching (index : Nat) (here : Path) : Attempt :=
  { kind := .navigation, index, operation := .enter, path := here, failure := [] }

def lostAt (index : Nat) (here : Path) : Located :=
  ⟨.navigation, index, here, .enter, lostReason,
    "Can't descend from " ++ here.toText ++ ": no directory was created there"⟩

/-- Closes a file on the way out of a stopped run; a failure to close hides what has stopped it. -/
def parting {α : Type} (path : Path) (s : Stop) : Build α := do
  match ← call (.close path) with
  | .error f => throw (.stray f)
  | .ok _ => throw s

/-- A part of a run that closes the file that is open if it stops. -/
def leaving {α : Type} (open? : Option Path) (b : Build α) : Build α :=
  match open? with
  | none => b
  | some path => tryCatch b (parting path)

namespace Errand

def run (o : Options) (open? : Option Path) : Errand → Build Unit
  | .attempt a c => do
    let answer ← call c
    leaving (held open? (c, answer)) (settle o a true answer)
  | .close path => do
    match ← call (.close path) with
    | .error f => throw (.stray f)
    | .ok _ => pure ()
  | .unable a f => leaving open? (settle o a true (.error f))
  | .lost index here =>
    leaving open? do
      tell o (searching index here) (some lostReason)
      throw (.located (lostAt index here))
  | .halt s => leaving open? (throw s)

/-- The file that is open after an errand has been run, if one was open before. -/
def leaves (open? : Option Path) : Errand → Option Path
  | .attempt _ c => held open? (c, .ok ())
  | .close _ => none
  | _ => open?

end Errand

def carryOut (o : Options) : Option Path → List Errand → Build Unit
  | _, [] => pure ()
  | open?, errand :: rest => do
    errand.run o open?
    carryOut o (errand.leaves open?) rest

theorem carryOut_append (o : Options) (open? : Option Path) (xs ys : List Errand) :
    carryOut o open? (xs ++ ys) = (do
      carryOut o open? xs
      carryOut o (xs.foldl Errand.leaves open?) ys) := by
  induction xs generalizing open? with
  | nil => simp [carryOut]
  | cons x xs ih => simp [carryOut, ih]

/-- Errands that leave no file open if none was. -/
def Tidy (errands : List Errand) : Prop := errands.foldl Errand.leaves none = none

theorem Tidy.append {xs ys : List Errand} (hx : Tidy xs) (hy : Tidy ys) : Tidy (xs ++ ys) := by
  unfold Tidy at *
  rw [List.foldl_append, hx, hy]

theorem Tidy.carryOut_append {xs : List Errand} (h : Tidy xs) (o : Options) (ys : List Errand) :
    carryOut o none (xs ++ ys) = (do carryOut o none xs; carryOut o none ys) := by
  rw [Build.carryOut_append, h]

variable {α β : Type} {open? : Option Path}

theorem parting_bind (path : Path) (s : Stop) (f : α → Build β) :
    (parting path s >>= f) = parting path s := by
  unfold parting
  rw [bind_assoc]
  congr
  funext answer
  cases answer <;> rfl

theorem run_leaving (path : Path) (b : Build α) :
    (leaving (some path) b).run = b.run >>= fun r => match r with
      | .ok a => pure (.ok a)
      | .error s => (parting path s).run := by
  show b.run >>= _ = _
  congr
  funext r
  cases r <;> rfl

theorem leaving_bind (open? : Option Path) (b : Build α) (f : α → Build β) :
    leaving open? (b >>= f) = leaving open? b >>= fun a => leaving open? (f a) := by
  cases open? with
  | none => rfl
  | some path =>
    refine ExceptT.ext ?_
    rw [ExceptT.run_bind, run_leaving, run_leaving, ExceptT.run_bind, bind_assoc, bind_assoc]
    congr
    funext r
    cases r with
    | ok a => exact (run_leaving path (f a)).symm
    | error s =>
      show (parting path s).run = (parting path s >>= fun a => leaving (some path) (f a)).run
      rw [parting_bind]

theorem leaving_call_bind (open? : Option Path) (c : Call) (f : Answer → Build α) :
    leaving open? (call c >>= f) = call c >>= fun answer => leaving open? (f answer) := by
  have hcall : leaving open? (call c) = call c := by
    cases open? with
    | none => rfl
    | some path => rfl
  rw [leaving_bind, hcall]

theorem carryOut_attempt (o : Options) (a : Attempt) {c : Call}
    (h : ∀ answer, held open? (c, answer) = open?) (rest : List Errand) :
    carryOut o open? (.attempt a c :: rest) = (do
      leaving open? (attempt o a c)
      carryOut o open? rest) := by
  unfold attempt
  rw [leaving_call_bind, carryOut, Errand.run, Errand.leaves, h]
  simp only [h]

/-- A failure stops a run, whether or not success would have been told. -/
theorem settle_error_bind (o : Options) (a : Attempt) (f : Failure) (tells tells' : Bool) (k k' : Unit → Build α) :
    (settle o a tells (.error f) >>= k) = settle o a tells' (.error f) >>= k' := by
  unfold settle
  dsimp only
  split
  · rw [bind_assoc, bind_assoc]
    rfl
  · rfl

/-! How errands go. -/

variable {log : List Exchange}

/-- How an observer, if there is one, is told of an attempt. -/
inductive Tells (o : Options) (a : Attempt) (error : Option Text) :
    List Exchange → Except Stop Unit → Prop where
  | alone : o.observed = false → Tells o a error [] (.ok ())
  | heard : o.observed = true → Tells o a error [(.observe (a.event error), .ok ())] (.ok ())
  | unheard {f : Failure} : o.observed = true →
      Tells o a error [(.observe (a.event error), .error f)]
        (.error (if f.kind.isSystem then .located (a.untold f.reason) else .stray f))

/-- How a stopped run parts from the file that is open, and with which stop in the end. -/
inductive Parts (s : Stop) : Option Path → List Exchange → Stop → Prop where
  | nothing : Parts s none [] s
  | closed (path : Path) : Parts s (some path) [(.close path, .ok ())] s
  | unclosed (path : Path) (f : Failure) :
      Parts s (some path) [(.close path, .error f)] (.stray f)

/-- What comes of a failure of an attempt: if it is expected, the observer is told. -/
inductive Fails (o : Options) (a : Attempt) (f : Failure) : List Exchange → Stop → Prop where
  | told {log : List Exchange} : f.isExpected = true → Tells o a (some f.reason) log (.ok ()) →
      Fails o a f log (.located (a.located f.reason))
  | untold {log : List Exchange} {s : Stop} : f.isExpected = true →
      Tells o a (some f.reason) log (.error s) → Fails o a f log s
  | stray : f.isExpected = false → Fails o a f [] (.stray f)

/-- All the ways in which an errand can go. -/
inductive Goes (o : Options) (open? : Option Path) :
    Errand → List Exchange → Except Stop Unit → Prop where
  | done {a : Attempt} {c : Call} {told : List Exchange} : Tells o a none told (.ok ()) →
      Goes o open? (.attempt a c) ((c, .ok ()) :: told) (.ok ())
  | untold {a : Attempt} {c : Call} {told tail : List Exchange} {s s' : Stop} :
      Tells o a none told (.error s) → Parts s (held open? (c, .ok ())) tail s' →
      Goes o open? (.attempt a c) ((c, .ok ()) :: (told ++ tail)) (.error s')
  | failed {a : Attempt} {c : Call} {f : Failure} {told tail : List Exchange} {s s' : Stop} :
      Fails o a f told s → Parts s (held open? (c, .error f)) tail s' →
      Goes o open? (.attempt a c) ((c, .error f) :: (told ++ tail)) (.error s')
  | closed {path : Path} : Goes o open? (.close path) [(.close path, .ok ())] (.ok ())
  | unclosed {path : Path} {f : Failure} :
      Goes o open? (.close path) [(.close path, .error f)] (.error (.stray f))
  | unable {a : Attempt} {f : Failure} {told tail : List Exchange} {s s' : Stop} :
      Fails o a f told s → Parts s open? tail s' →
      Goes o open? (.unable a f) (told ++ tail) (.error s')
  | lost {index : Nat} {here : Path} {told tail : List Exchange} {s' : Stop} :
      Tells o (searching index here) (some lostReason) told (.ok ()) →
      Parts (.located (lostAt index here)) open? tail s' →
      Goes o open? (.lost index here) (told ++ tail) (.error s')
  | lostUntold {index : Nat} {here : Path} {told tail : List Exchange} {s s' : Stop} :
      Tells o (searching index here) (some lostReason) told (.error s) → Parts s open? tail s' →
      Goes o open? (.lost index here) (told ++ tail) (.error s')
  | halted {s s' : Stop} {tail : List Exchange} : Parts s open? tail s' →
      Goes o open? (.halt s) tail (.error s')

/-- How errands are carried out one after the other. -/
inductive Proceeds (o : Options) : Option Path → List Errand → List Exchange → Except Stop Unit →
    Prop where
  | finish (open? : Option Path) : Proceeds o open? [] [] (.ok ())
  | stop {open? : Option Path} {errand : Errand} {rest : List Errand} {log : List Exchange} {s : Stop} :
      Goes o open? errand log (.error s) → Proceeds o open? (errand :: rest) log (.error s)
  | advance {open? : Option Path} {errand : Errand} {rest : List Errand} {l₁ l₂ : List Exchange}
      {r : Except Stop Unit} :
      Goes o open? errand l₁ (.ok ()) → Proceeds o (errand.leaves open?) rest l₂ r →
      Proceeds o open? (errand :: rest) (l₁ ++ l₂) r

theorem tells_of_ends {o : Options} {a : Attempt} {error : Option Text} {r : Except Stop Unit}
    (h : Ends (tell o a error).run log r) : Tells o a error log r := by
  unfold tell at h
  split at h
  · next ho =>
    obtain ⟨answer, l, rfl, hl⟩ := ends_call_bind.1 h
    cases answer with
    | ok u =>
      obtain ⟨rfl, rfl⟩ := ends_pure.1 hl
      exact .heard ho
    | error f =>
      have hthrow : Ends (throw (if f.kind.isSystem then Stop.located (a.untold f.reason) else .stray f) :
          Build Unit).run l r := by
        dsimp only at hl
        split at hl
        · next hk => rwa [if_pos hk]
        · next hk => rwa [if_neg hk]
      obtain ⟨rfl, rfl⟩ := ends_throw.1 hthrow
      exact .unheard ho
  · next ho =>
    obtain ⟨rfl, rfl⟩ := ends_pure.1 h
    exact .alone (by simpa using ho)

theorem fails_of_ends {o : Options} {a : Attempt} {tells : Bool} {f : Failure} {r : Except Stop Unit}
    (h : Ends (settle o a tells (.error f)).run log r) : ∃ s, r = .error s ∧ Fails o a f log s := by
  rw [settle] at h
  split at h
  · next hf =>
    rcases ends_bind.1 h with ⟨s, hs, rfl⟩ | ⟨l₁, _, l₂, h₁, h₂, rfl⟩
    · exact ⟨s, rfl, .untold hf (tells_of_ends hs)⟩
    · obtain ⟨rfl, rfl⟩ := ends_throw.1 h₂
      rw [List.append_nil]
      exact ⟨_, rfl, .told hf (tells_of_ends h₁)⟩
  · next hf =>
    obtain ⟨rfl, rfl⟩ := ends_throw.1 h
    exact ⟨_, rfl, .stray (by simpa using hf)⟩

theorem parts_of_ends {path : Path} {s : Stop} {r : Except Stop α}
    (h : Ends (parting path s : Build α).run log r) :
    ∃ s', r = .error s' ∧ Parts s (some path) log s' := by
  obtain ⟨answer, l, rfl, hl⟩ := ends_call_bind.1 h
  cases answer with
  | ok u =>
    obtain ⟨rfl, rfl⟩ := ends_throw.1 hl
    exact ⟨s, rfl, .closed path⟩
  | error f =>
    obtain ⟨rfl, rfl⟩ := ends_throw.1 hl
    exact ⟨.stray f, rfl, .unclosed path f⟩

/-- A part of a run ends by itself, or it stops and then parts from the file that is open. -/
theorem ends_leaving {b : Build α} {r : Except Stop α} (h : Ends (leaving open? b).run log r) :
    (∃ a, r = .ok a ∧ Ends b.run log (.ok a)) ∨
      ∃ s l₁ l₂ s', Ends b.run l₁ (.error s) ∧ Parts s open? l₂ s' ∧ log = l₁ ++ l₂ ∧
        r = .error s' := by
  cases open? with
  | none =>
    cases r with
    | ok a => exact .inl ⟨a, rfl, h⟩
    | error s => exact .inr ⟨s, log, [], s, h, .nothing, by simp, rfl⟩
  | some path =>
    rw [run_leaving, Run.ends_bind] at h
    obtain ⟨l₁, x, l₂, h₁, h₂, rfl⟩ := h
    cases x with
    | ok a =>
      obtain ⟨rfl, rfl⟩ := Run.ends_pure.1 h₂
      exact .inl ⟨a, rfl, by simpa using h₁⟩
    | error s =>
      obtain ⟨s', rfl, hparts⟩ := parts_of_ends h₂
      exact .inr ⟨s, l₁, l₂, s', h₁, hparts, rfl, rfl⟩

theorem goes_of_ends {o : Options} {errand : Errand} {r : Except Stop Unit}
    (h : Ends (errand.run o open?).run log r) : Goes o open? errand log r := by
  cases errand with
  | attempt a c =>
    obtain ⟨answer, l, rfl, hl⟩ := ends_call_bind.1 h
    cases answer with
    | ok u =>
      rcases ends_leaving hl with ⟨_, rfl, htold⟩ | ⟨s, told, tail, s', htold, hparts, rfl, rfl⟩
      · exact .done (tells_of_ends htold)
      · exact .untold (tells_of_ends htold) hparts
    | error f =>
      rcases ends_leaving hl with ⟨_, rfl, htold⟩ | ⟨s, told, tail, s', htold, hparts, rfl, rfl⟩
      · obtain ⟨_, hs, -⟩ := fails_of_ends htold
        cases hs
      · obtain ⟨_, hs, hfails⟩ := fails_of_ends htold
        cases hs
        exact .failed hfails hparts
  | close path =>
    obtain ⟨answer, l, rfl, hl⟩ := ends_call_bind.1 h
    cases answer with
    | ok u =>
      obtain ⟨rfl, rfl⟩ := ends_pure.1 hl
      exact .closed
    | error f =>
      obtain ⟨rfl, rfl⟩ := ends_throw.1 hl
      exact .unclosed
  | unable a f =>
    rcases ends_leaving h with ⟨_, rfl, htold⟩ | ⟨s, told, tail, s', htold, hparts, rfl, rfl⟩
    · obtain ⟨_, hs, -⟩ := fails_of_ends htold
      cases hs
    · obtain ⟨_, hs, hfails⟩ := fails_of_ends htold
      cases hs
      exact .unable hfails hparts
  | lost index here =>
    rcases ends_leaving h with ⟨_, rfl, htold⟩ | ⟨s, told, tail, s', htold, hparts, rfl, rfl⟩
    · rcases ends_bind.1 htold with ⟨s, -, hs⟩ | ⟨_, _, _, -, h₂, -⟩
      · cases hs
      · obtain ⟨-, hs⟩ := ends_throw.1 h₂
        cases hs
    · rcases ends_bind.1 htold with ⟨s, htold, hs⟩ | ⟨l₁, _, l₂, h₁, h₂, rfl⟩
      · cases hs
        exact .lostUntold (tells_of_ends htold) hparts
      · obtain ⟨rfl, hs⟩ := ends_throw.1 h₂
        cases hs
        rw [List.append_nil]
        exact .lost (tells_of_ends h₁) hparts
  | halt s =>
    rcases ends_leaving h with ⟨_, rfl, hthrow⟩ | ⟨s, told, tail, s', hthrow, hparts, rfl, rfl⟩
    · obtain ⟨-, hs⟩ := ends_throw.1 hthrow
      cases hs
    · obtain ⟨rfl, hs⟩ := ends_throw.1 hthrow
      cases hs
      exact .halted hparts

theorem proceeds_of_ends {o : Options} {errands : List Errand} {r : Except Stop Unit}
    (h : Ends (carryOut o open? errands).run log r) : Proceeds o open? errands log r := by
  induction errands generalizing open? log with
  | nil =>
    obtain ⟨rfl, rfl⟩ := ends_pure.1 h
    exact .finish open?
  | cons errand rest ih =>
    rcases ends_bind.1 h with ⟨s, hs, rfl⟩ | ⟨l₁, _, l₂, h₁, h₂, rfl⟩
    · exact .stop (goes_of_ends hs)
    · exact .advance (goes_of_ends h₁) (ih h₂)

/-- An errand that has gone well has exchanged nothing else. -/
theorem Goes.all_ok {o : Options} {errand : Errand} (h : Goes o open? errand log (.ok ())) :
    (∀ x ∈ log, x.2 = .ok ()) ∧ log.foldl held open? = errand.leaves open? := by
  cases h with
  | done htold =>
    cases htold with
    | alone => exact ⟨by simp, rfl⟩
    | heard => exact ⟨by simp, rfl⟩
  | closed => exact ⟨by simp, rfl⟩

end Build

end TreePlan
