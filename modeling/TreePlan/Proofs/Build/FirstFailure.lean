import TreePlan.Proofs.Build.Agenda
import TreePlan.Proofs.Build.PlannedCalls
import TreePlan.Proofs.Build.Stopping

/-! The first failure of a run is its last act, and to be observed makes no difference to it. Whatever
fails, a run makes the calls that it would make if nothing failed, up to the failure; after that it does
no more than close the file that is open. With an observer that never fails it makes the same calls and
comes to the same end as alone. -/

namespace TreePlan

open Run (Ends)

namespace Call

def isObserve : Call → Bool
  | .observe _ => true
  | _ => false

end Call

/-- The closing of files among some exchanges. -/
def closings (log : List Exchange) : List Call := (log.map Prod.fst).filter Call.isClose

theorem asked_append (l₁ l₂ : List Exchange) : asked (l₁ ++ l₂) = asked l₁ ++ asked l₂ := by
  simp [asked]

theorem closings_append (l₁ l₂ : List Exchange) : closings (l₁ ++ l₂) = closings l₁ ++ closings l₂ := by
  simp [closings]

/-- After the first failure nothing is called but to close the file that is open then. -/
def FailsLast : Option Path → List Exchange → Prop
  | _, [] => True
  | open?, (c, .ok u) :: rest => FailsLast (held open? (c, .ok u)) rest
  | open?, (c, .error f) :: rest =>
    asked rest = [] ∧ closings rest = (held open? (c, .error f)).toList.map .close

variable {open? : Option Path} {log l₁ l₂ : List Exchange}

theorem failsLast_append (h : ∀ x ∈ l₁, x.2 = .ok ()) :
    FailsLast open? (l₁ ++ l₂) ↔ FailsLast (l₁.foldl held open?) l₂ := by
  induction l₁ generalizing open? with
  | nil => rfl
  | cons x l₁ ih =>
    obtain ⟨c, answer⟩ := x
    obtain rfl : answer = .ok () := h _ List.mem_cons_self
    exact ih fun y hy => h y (List.mem_cons_of_mem _ hy)

namespace Build

/-- The calls of an errand to the file system. -/
def Errand.asks : Errand → List Call
  | .attempt _ c => [c].filter Call.isPrimitive
  | _ => []

variable {o : Options} {a : Attempt} {error : Option Text} {r : Except Stop Unit} {s s' : Stop}
  {told tail : List Exchange}

theorem Tells.asked_eq (h : Tells o a error log r) : asked log = [] := by
  cases h <;> rfl

theorem Tells.closings_eq (h : Tells o a error log r) : closings log = [] := by
  cases h <;> rfl

theorem Fails.asked_eq {f : Failure} (h : Fails o a f log s) : asked log = [] := by
  cases h with
  | told _ h => exact h.asked_eq
  | untold _ h => exact h.asked_eq
  | stray => rfl

theorem Fails.closings_eq {f : Failure} (h : Fails o a f log s) : closings log = [] := by
  cases h with
  | told _ h => exact h.closings_eq
  | untold _ h => exact h.closings_eq
  | stray => rfl

theorem Parts.asked_eq (h : Parts s open? log s') : asked log = [] := by
  cases h <;> rfl

theorem Parts.closings_eq (h : Parts s open? log s') : closings log = open?.toList.map .close := by
  cases h <;> rfl

/-- Whatever comes of an errand, its call is made, and no other. -/
theorem Goes.asked_eq {errand : Errand} (h : Goes o open? errand log r) : asked log = errand.asks := by
  have hcons (x : Exchange) (log : List Exchange) : asked (x :: log) = asked [x] ++ asked log :=
    asked_append [x] log
  cases h with
  | done htold => rw [hcons, htold.asked_eq]; exact List.append_nil _
  | untold htold hparts => rw [hcons, asked_append, htold.asked_eq, hparts.asked_eq]; exact List.append_nil _
  | failed hfails hparts => rw [hcons, asked_append, hfails.asked_eq, hparts.asked_eq]; exact List.append_nil _
  | closed => rfl
  | unclosed => rfl
  | unable hfails hparts => rw [asked_append, hfails.asked_eq, hparts.asked_eq]; rfl
  | lost htold hparts => rw [asked_append, htold.asked_eq, hparts.asked_eq]; rfl
  | lostUntold htold hparts => rw [asked_append, htold.asked_eq, hparts.asked_eq]; rfl
  | halted hparts => exact hparts.asked_eq

theorem Parts.failsLast (h : Parts s open? tail s') : FailsLast open? tail := by
  cases h with
  | nothing => trivial
  | closed => trivial
  | unclosed => exact ⟨rfl, rfl⟩

theorem Tells.failsLast (h : Tells o a error told r) (hparts : Parts s open? tail s') :
    FailsLast open? (told ++ tail) := by
  cases h with
  | alone => exact hparts.failsLast
  | heard => exact hparts.failsLast
  | unheard => exact ⟨hparts.asked_eq, hparts.closings_eq⟩

theorem Fails.failsLast {f : Failure} (h : Fails o a f told s) (hparts : Parts s open? tail s') :
    FailsLast open? (told ++ tail) := by
  cases h with
  | told _ h => exact h.failsLast hparts
  | untold _ h => exact h.failsLast hparts
  | stray => exact hparts.failsLast

theorem Goes.failsLast {errand : Errand} (h : Goes o open? errand log r) : FailsLast open? log := by
  cases h with
  | done htold =>
    cases htold with
    | alone => trivial
    | heard => trivial
  | untold htold hparts => exact htold.failsLast hparts
  | failed hfails hparts =>
    refine ⟨?_, ?_⟩
    · rw [asked_append, hfails.asked_eq, hparts.asked_eq]
      rfl
    · rw [closings_append, hfails.closings_eq, hparts.closings_eq]
      rfl
  | closed => trivial
  | unclosed => exact ⟨rfl, rfl⟩
  | unable hfails hparts => exact hfails.failsLast hparts
  | lost htold hparts => exact htold.failsLast hparts
  | lostUntold htold hparts => exact htold.failsLast hparts
  | halted hparts => exact hparts.failsLast

theorem Proceeds.failsLast {errands : List Errand} (h : Proceeds o open? errands log r) :
    FailsLast open? log := by
  induction h with
  | finish => trivial
  | stop h => exact h.failsLast
  | advance h _ ih =>
    obtain ⟨hok, hheld⟩ := h.all_ok
    rw [failsLast_append hok, hheld]
    exact ih

/-- What goes well in one run can stop another only by a failure. -/
theorem Goes.failure_of_stop {o' : Options} {open?' : Option Path} {errand : Errand}
    (h : Goes o open? errand l₁ (.ok ())) (h' : Goes o' open?' errand l₂ (.error s)) :
    ∃ x ∈ l₂, x.2 ≠ .ok () := by
  cases h with
  | done =>
    cases h' with
    | untold htold =>
      cases htold with
      | unheard => simp
    | failed => simp
  | closed =>
    cases h' with
    | unclosed => simp

/-- Of two runs that carry out the same errands, one in which nothing fails makes all calls of the other. -/
theorem Proceeds.asked_isPrefix {o' : Options} {open?' : Option Path} {errands : List Errand}
    {r' : Except Stop Unit} (h : Proceeds o open? errands l₁ r)
    (h' : Proceeds o' open?' errands l₂ r') (hok : ∀ x ∈ l₂, x.2 = .ok ()) :
    asked l₁ <+: asked l₂ := by
  induction h generalizing open?' l₂ with
  | finish => exact List.nil_prefix
  | stop hgoes =>
    cases h' with
    | stop hgoes' =>
      rw [hgoes.asked_eq, hgoes'.asked_eq]
    | advance hgoes' =>
      rw [hgoes.asked_eq, asked_append, hgoes'.asked_eq]
      exact List.prefix_append _ _
  | advance hgoes _ ih =>
    cases h' with
    | stop hgoes' =>
      obtain ⟨x, hx, hne⟩ := hgoes.failure_of_stop hgoes'
      exact absurd (hok x hx) hne
    | advance hgoes' hrest' =>
      rw [asked_append, asked_append, hgoes.asked_eq, hgoes'.asked_eq, List.prefix_append_right_inj]
      exact ih hrest' fun x hx => hok x (List.mem_append_right _ hx)

end Build

theorem FailsLast.after {before after : List Exchange} {c : Call} {f : Failure}
    (h : FailsLast open? (before ++ (c, .error f) :: after)) (hok : ∀ x ∈ before, x.2 = .ok ()) :
    asked after = [] ∧
      closings after = ((before ++ [(c, (.error f : Answer))]).foldl held open?).toList.map .close := by
  rw [failsLast_append hok] at h
  rw [List.foldl_append]
  exact h

/-! An observer that never fails. -/

/-- The exchanges without those with the observer. -/
def unobserved (log : List Exchange) : List Exchange := log.filter fun x => !x.1.isObserve

/-- Answers as the script says, which takes no notice of an observer, and never lets the observer fail. -/
def Script.aside (script : Script) : Script := fun past c =>
  if c.isObserve then .ok () else script (unobserved past) c

theorem unobserved_cons_observe {c : Call} (hc : c.isObserve = true) (answer : Answer)
    (log : List Exchange) : unobserved ((c, answer) :: log) = unobserved log :=
  List.filter_cons_of_neg (by simpa using hc)

theorem unobserved_cons {c : Call} (hc : c.isObserve = false) (answer : Answer)
    (log : List Exchange) : unobserved ((c, answer) :: log) = (c, answer) :: unobserved log :=
  List.filter_cons_of_pos (by simpa using hc)

theorem unobserved_append (l₁ l₂ : List Exchange) :
    unobserved (l₁ ++ l₂) = unobserved l₁ ++ unobserved l₂ := by
  simp [unobserved]

theorem Script.replays_aside {script : Script} {past now : List Exchange}
    (h : Run.Replays script.aside.answer past log now) :
    (∀ x ∈ log, x.1.isObserve = true → x.2 = .ok ()) ∧
      Run.Replays script.answer (unobserved past) (unobserved log) (unobserved now) := by
  induction h with
  | nil past => exact ⟨by simp, .nil _⟩
  | @cons c answer log past _ now hanswer _ ih =>
    obtain ⟨hquiet, hreplays⟩ := ih
    cases hanswer
    rw [unobserved_append] at hreplays
    cases hc : c.isObserve with
    | true =>
      have haside : script.aside past c = .ok () := if_pos hc
      rw [haside] at hreplays ⊢
      rw [unobserved_cons_observe hc]
      rw [unobserved_cons_observe hc, show unobserved [] = [] from rfl, List.append_nil] at hreplays
      exact ⟨List.forall_mem_cons.2 ⟨fun _ => rfl, hquiet⟩, hreplays⟩
    | false =>
      have haside : script.aside past c = script (unobserved past) c := if_neg (by simp [hc])
      rw [haside] at hreplays ⊢
      rw [unobserved_cons hc]
      rw [unobserved_cons hc] at hreplays
      refine ⟨List.forall_mem_cons.2 ⟨fun ho => ?_, hquiet⟩, .cons rfl hreplays⟩
      simp [hc] at ho

namespace Run

variable {α β : Type}

/-- A run that tells no observer anything and goes on as if one had heard it all. -/
def muted : Run α → Run α
  | .done a => .done a
  | .ask (.observe _) next => (next (.ok ())).muted
  | .ask c next => .ask c fun answer => (next answer).muted

theorem muted_observe {c : Call} (hc : c.isObserve = true) (next : Answer → Run α) :
    (ask c next).muted = (next (.ok ())).muted := by
  cases c with
  | observe e => rfl
  | _ => cases hc

theorem muted_ask {c : Call} (hc : c.isObserve = false) (next : Answer → Run α) :
    (ask c next).muted = .ask c fun answer => (next answer).muted := by
  cases c with
  | observe e => cases hc
  | _ => rfl

theorem muted_bind (run : Run α) (f : α → Run β) :
    (run >>= f).muted = run.muted >>= fun a => (f a).muted := by
  induction run with
  | done a => rfl
  | ask c next ih =>
    show (ask c fun answer => next answer >>= f).muted = _
    cases hc : c.isObserve with
    | true =>
      rw [muted_observe hc, muted_observe hc]
      exact ih (.ok ())
    | false =>
      rw [muted_ask hc, muted_ask hc]
      exact congrArg (ask c) (funext ih)

theorem Ends.muted {run : Run α} {a : α} (h : Ends run log a)
    (hquiet : ∀ x ∈ log, x.1.isObserve = true → x.2 = .ok ()) :
    Ends run.muted (unobserved log) a := by
  induction h with
  | done a => exact .done a
  | @ask c next answer log a hends ih =>
    have ih := ih fun x hx => hquiet x (List.mem_cons_of_mem _ hx)
    cases hc : c.isObserve with
    | true =>
      obtain rfl : answer = .ok () := hquiet _ List.mem_cons_self hc
      rw [muted_observe hc, unobserved_cons_observe hc]
      exact ih
    | false =>
      rw [muted_ask hc, unobserved_cons hc]
      exact .ask ih

/-- A script plays a run with an observer aside as it plays the run that is muted. -/
theorem play_aside (script : Script) (run : Run α) :
    run.muted.play script = ((run.play script.aside).1, unobserved (run.play script.aside).2) := by
  obtain ⟨hends, hreplays⟩ := replays_play script.aside run
  obtain ⟨hquiet, hreplays⟩ := Script.replays_aside hreplays
  exact perform_eq_iff.2 ⟨_, hends.muted hquiet, hreplays⟩

end Run

namespace Build

variable {α β : Type} {loud alone : Options}

/-- One part of a run is another that has been muted. -/
def Mutes (b b' : Build α) : Prop := b.run.muted = b'.run

theorem mutes_pure (a : α) : Mutes (pure a) (pure a) := rfl

theorem mutes_throw (s : Stop) : Mutes (throw s : Build α) (throw s) := rfl

theorem Mutes.bind {b b' : Build α} {f f' : α → Build β} (hb : Mutes b b')
    (hf : ∀ a, Mutes (f a) (f' a)) : Mutes (b >>= f) (b' >>= f') := by
  unfold Mutes
  rw [ExceptT.run_bind, ExceptT.run_bind, Run.muted_bind, hb]
  congr
  funext r
  cases r with
  | ok a => exact hf a
  | error s => rfl

theorem mutes_call {c : Call} (hc : c.isObserve = false) : Mutes (call c) (call c) := by
  show (Run.ask c fun answer => Run.done (Except.ok answer)).muted = _
  rw [Run.muted_ask hc]
  rfl

section Alone

variable (hloud : loud.observed = true) (halone : alone.observed = false)

include hloud halone

theorem mutes_tell (a : Attempt) (error : Option Text) : Mutes (tell loud a error) (tell alone a error) := by
  unfold tell
  rw [if_pos hloud, if_neg (by simp [halone])]
  rfl

theorem mutes_settle (a : Attempt) (tells : Bool) (answer : Answer) :
    Mutes (settle loud a tells answer) (settle alone a tells answer) := by
  cases answer with
  | ok u =>
    simp only [settle]
    split
    · exact mutes_tell hloud halone a none
    · exact mutes_pure ()
  | error f =>
    simp only [settle]
    split
    · exact (mutes_tell hloud halone a _).bind fun _ => mutes_throw _
    · exact mutes_throw _

omit hloud halone in
theorem mutes_parting (path : Path) (s : Stop) :
    Mutes (parting path s : Build α) (parting path s) := by
  refine (mutes_call rfl).bind fun answer => ?_
  cases answer with
  | ok u => exact mutes_throw _
  | error f => exact mutes_throw _

omit hloud halone in
theorem Mutes.leaving {b b' : Build α} (h : Mutes b b') (open? : Option Path) :
    Mutes (leaving open? b) (leaving open? b') := by
  cases open? with
  | none => exact h
  | some path =>
    unfold Mutes
    rw [run_leaving, run_leaving, Run.muted_bind, h]
    congr
    funext r
    cases r with
    | ok a => rfl
    | error s => exact mutes_parting path s

theorem mutes_run (open? : Option Path) {errand : Errand}
    (hcall : ∀ a c, errand = .attempt a c → c.isObserve = false) :
    Mutes (errand.run loud open?) (errand.run alone open?) := by
  cases errand with
  | attempt a c =>
    refine (mutes_call (hcall a c rfl)).bind fun answer => ?_
    exact (mutes_settle hloud halone a true answer).leaving _
  | close path =>
    refine (mutes_call rfl).bind fun answer => ?_
    cases answer with
    | ok u => exact mutes_pure ()
    | error f => exact mutes_throw _
  | unable a f => exact (mutes_settle hloud halone a true _).leaving _
  | lost index here =>
    exact ((mutes_tell hloud halone _ _).bind fun _ => mutes_throw _).leaving _
  | halt s => exact (mutes_throw s).leaving _

theorem mutes_carryOut (open? : Option Path) {errands : List Errand}
    (hcall : ∀ a c, .attempt a c ∈ errands → c.isObserve = false) :
    Mutes (carryOut loud open? errands) (carryOut alone open? errands) := by
  induction errands generalizing open? with
  | nil => exact mutes_pure ()
  | cons errand rest ih =>
    refine (mutes_run hloud halone open? fun a c he => ?_).bind fun _ => ?_
    · exact hcall a c (he ▸ List.mem_cons_self)
    · exact ih _ fun a c hm => hcall a c (List.mem_cons_of_mem _ hm)

end Alone

/-- An attempt is made for a call to the file system, never for one to the observer. -/
theorem Attempt.Fits.isObserve_eq {a : Attempt} {c : Call} (h : a.Fits c) : c.isObserve = false := by
  have hpath := h.path
  cases c with
  | observe e => cases hpath
  | _ => rfl

theorem muted_entries (o : Options) (root : Path) (es : List Entry) :
    (Build.entries { o with observed := true } root es).muted =
      Build.entries { o with observed := false } root es := by
  rw [entries_eq_carryOut, entries_eq_carryOut]
  have hcall (a : Attempt) (c : Call) (hm : .attempt a c ∈ agenda root o.encoding es) :
      c.isObserve = false := by
    cases due_agenda hm with
    | attempt hfits => exact hfits.isObserve_eq
  exact (mutes_carryOut rfl rfl none hcall).bind fun _ => mutes_pure _

/-- Whatever is answered to it, a run makes calls that it makes alone when nothing fails, up to some
point. After the first failure it asks nothing of the file system but to close the file that is open at
that moment. An observer that never fails changes neither the calls of a run nor its result. -/
theorem first_failure_is_last (o : Options) (root : Path) (es : List Entry) (script : Script) :
    (asked ((Build.entries o root es).play script).2 <+:
        asked ((Build.entries { o with observed := false } root es).play .smooth).2 ∧
      ∀ before c f after,
        ((Build.entries o root es).play script).2 = before ++ (c, .error f) :: after →
        (∀ x ∈ before, x.2 = .ok ()) →
        asked after = [] ∧
          closings after =
            ((before ++ [(c, (.error f : Answer))]).foldl held none).toList.map .close) ∧
    ((Build.entries { o with observed := true } root es).play script.aside).1 =
        ((Build.entries { o with observed := false } root es).play script).1 ∧
      unobserved ((Build.entries { o with observed := true } root es).play script.aside).2 =
        ((Build.entries { o with observed := false } root es).play script).2 := by
  obtain ⟨_, hproceeds, -⟩ := proceeds_of_entries (Run.ends_play script (Build.entries o root es))
  obtain ⟨_, hsmooth, -⟩ := proceeds_of_entries
    (Run.ends_play .smooth (Build.entries { o with observed := false } root es))
  have hok := Run.play_smooth_ok (Build.entries { o with observed := false } root es)
  refine ⟨⟨hproceeds.asked_isPrefix hsmooth hok, fun before c f after hlog hbefore => ?_⟩, ?_⟩
  · exact (hlog ▸ hproceeds.failsLast).after hbefore
  · have hplay := Run.play_aside script (Build.entries { o with observed := true } root es)
    rw [muted_entries] at hplay
    rw [hplay]
    exact ⟨rfl, rfl⟩

end Build

end TreePlan
