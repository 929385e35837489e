import TreePlan.Proofs.Build.Agenda
import TreePlan.Proofs.Build.Steps

/-! What an observer that never fails is told of a run. Each call to the file system is followed at once
by one event, with the name of the call, its path and how it has gone. Failure is told of last. It is told
of if and only if it has stopped the run and can be located, and a name that is refused is never told of. -/

namespace TreePlan

open Run (Ends)

/-- The event tells how the call has gone. -/
structure Event.Reports (event : Event) (c : Call) (answer : Answer) : Prop where
  operation : ∃ operation ∈ c.operations, event.operation = operation.name
  path : c.path?.map Path.toText = some event.path
  ok : event.ok = answer.isOk
  error : event.error = match answer with
    | .ok _ => none
    | .error f => some f.reason

/-- The event tells of the failure that is located there. -/
structure Event.Admits (event : Event) (l : Located) : Prop where
  ok : event.ok = false
  operation : event.operation = l.operation.name
  path : event.path = l.path.toText
  error : event.error = some l.reason

def Call.event? : Call → Option Event
  | .observe event => some event
  | _ => none

/-- All that an observer has been told. -/
def told (log : List Exchange) : List Event := log.filterMap fun x => x.1.event?

theorem told_cons {c : Call} (h : c.event? = none) (answer : Answer) (log : List Exchange) :
    told ((c, answer) :: log) = told log := List.filterMap_cons_none h

theorem told_append (l₁ l₂ : List Exchange) : told (l₁ ++ l₂) = told l₁ ++ told l₂ := by
  simp [told]

/-- Each call to the file system has its event right after it, and what is written goes to the file that
is open. An event that follows no such call is of the given kind. -/
inductive Recounts (unprompted : Event → Prop) : Option Path → List Exchange → Prop where
  | nil {open? : Option Path} : Recounts unprompted open? []
  | call {open? : Option Path} {c : Call} {answer : Answer} {event : Event} {rest : List Exchange} :
      (∀ path bytes, c = .write path bytes → open? = some path) → event.Reports c answer →
      Recounts unprompted (held open? (c, answer)) rest →
      Recounts unprompted open? ((c, answer) :: (.observe event, .ok ()) :: rest)
  | close {open? : Option Path} {path : Path} {answer : Answer} {rest : List Exchange} :
      Recounts unprompted none rest → Recounts unprompted open? ((.close path, answer) :: rest)
  | unprompted {open? : Option Path} {event : Event} {rest : List Exchange} : unprompted event →
      Recounts unprompted open? rest → Recounts unprompted open? ((.observe event, .ok ()) :: rest)

namespace Recounts

variable {unprompted : Event → Prop} {open? : Option Path} {log l₁ l₂ before after : List Exchange}

theorem append (h₁ : Recounts unprompted open? l₁)
    (h₂ : Recounts unprompted (l₁.foldl held open?) l₂) : Recounts unprompted open? (l₁ ++ l₂) := by
  induction h₁ with
  | nil => exact h₂
  | call hwrite hevent _ ih => exact .call hwrite hevent (ih h₂)
  | close _ ih => exact .close (ih h₂)
  | unprompted hevent _ ih => exact .unprompted hevent (ih h₂)

/-- Wherever what has been recounted is cut in two, the rest is recounted from the file that is open
there, or the cut stands between a call and its event. -/
theorem cut (h : Recounts unprompted open? log) (hlog : log = before ++ after) :
    Recounts unprompted (before.foldl held open?) after ∨
      ∃ init c answer event rest, before = init ++ [(c, answer)] ∧
        after = (.observe event, .ok ()) :: rest ∧ event.Reports c answer := by
  induction h generalizing before with
  | nil =>
    obtain ⟨rfl, rfl⟩ := List.append_eq_nil_iff.1 hlog.symm
    exact .inl .nil
  | @call open? c answer event rest hwrite hevent hrest ih =>
    -- a call and its event are skipped together
    match before with
    | [] =>
      rw [← show _ = after from hlog]
      exact .inl (.call hwrite hevent hrest)
    | [x] =>
      obtain ⟨rfl, rfl⟩ := List.cons.inj hlog
      exact .inr ⟨[], c, answer, event, rest, rfl, rfl, hevent⟩
    | x :: y :: before =>
      simp only [List.cons_append, List.cons.injEq] at hlog
      obtain ⟨rfl, rfl, htail⟩ := hlog
      rcases ih htail with hafter | ⟨init, c', answer', event', rest', rfl, hafter, hevent'⟩
      · exact .inl hafter
      · exact .inr ⟨_ :: _ :: init, c', answer', event', rest', rfl, hafter, hevent'⟩
  | @close open? path answer rest hrest ih =>
    cases before with
    | nil =>
      rw [← show _ = after from hlog]
      exact .inl (.close hrest)
    | cons x before =>
      obtain ⟨rfl, htail⟩ := List.cons.inj hlog
      rcases ih htail with hafter | ⟨init, c, answer', event, rest', rfl, hafter, hevent⟩
      · exact .inl hafter
      · exact .inr ⟨_ :: init, c, answer', event, rest', rfl, hafter, hevent⟩
  | @unprompted open? event rest hevent hrest ih =>
    cases before with
    | nil =>
      rw [← show _ = after from hlog]
      exact .inl (.unprompted hevent hrest)
    | cons x before =>
      obtain ⟨rfl, htail⟩ := List.cons.inj hlog
      rcases ih htail with hafter | ⟨init, c, answer', event', rest', rfl, hafter, hevent'⟩
      · exact .inl hafter
      · exact .inr ⟨_ :: init, c, answer', event', rest', rfl, hafter, hevent'⟩

theorem followed {c : Call} {answer : Answer}
    (h : Recounts unprompted open? (before ++ (c, answer) :: after)) (hc : c.isPrimitive = true) :
    (∃ event rest, after = (.observe event, .ok ()) :: rest ∧ event.Reports c answer) ∧
      ∀ path bytes, c = .write path bytes → before.foldl held open? = some path := by
  rcases h.cut rfl with hrest | ⟨_, _, _, _, _, -, hevent, -⟩
  · cases hrest with
    | call hwrite hevent _ => exact ⟨⟨_, _, rfl, hevent⟩, hwrite⟩
    | close => cases hc
    | unprompted => cases hc
  · cases hevent
    cases hc

theorem prompted {event : Event} {answer : Answer}
    (h : Recounts unprompted open? (before ++ (.observe event, answer) :: after)) :
    unprompted event ∨ ∃ init c answer, before = init ++ [(c, answer)] ∧ event.Reports c answer := by
  rcases h.cut rfl with hrest | ⟨init, c, a, _, _, hbefore, hafter, hevent⟩
  · cases hrest with
    | call _ hevent _ =>
      obtain ⟨_, hoperation, -⟩ := hevent.operation
      cases hoperation
    | unprompted hevent _ => exact .inl hevent
  · cases hafter
    exact .inr ⟨init, c, a, hbefore, hevent⟩

end Recounts

/-- What has been told agrees with how a run has ended. -/
inductive Agrees {α : Type} : List Event → Except Stop α → Prop where
  | well {events : List Event} (a : α) : (∀ event ∈ events, event.ok = true) → Agrees events (.ok a)
  | silent {events : List Event} {s : Stop} : (∀ event ∈ events, event.ok = true) →
      (∀ l, s = .located l → l.operation = .resolve) → Agrees events (.error s)
  | admitted {events : List Event} {event : Event} {l : Located} : (∀ event ∈ events, event.ok = true) →
      event.Admits l → l.operation ≠ .resolve → Agrees (events ++ [event]) (.error (.located l))

namespace Agrees

variable {α : Type} {events : List Event} {r : Except Stop α}

theorem after (h : Agrees events r) {earlier : List Event} (hok : ∀ event ∈ earlier, event.ok = true) :
    Agrees (earlier ++ events) r := by
  cases h with
  | well a h => exact .well a (List.forall_mem_append.2 ⟨hok, h⟩)
  | silent h hs => exact .silent (List.forall_mem_append.2 ⟨hok, h⟩) hs
  | admitted h hevent hl =>
    rw [← List.append_assoc]
    exact .admitted (List.forall_mem_append.2 ⟨hok, h⟩) hevent hl

theorem all_ok {a : α} (h : Agrees events (.ok a)) : ∀ event ∈ events, event.ok = true := by
  generalize hr : (Except.ok a : Except Stop α) = r at h
  cases h with
  | well _ h => exact h
  | silent => cases hr
  | admitted => cases hr

theorem dropLast_ok (h : Agrees events r) : ∀ event ∈ events.dropLast, event.ok = true := by
  cases h with
  | well _ h => exact fun event hm => h event (List.dropLast_subset _ hm)
  | silent h => exact fun event hm => h event (List.dropLast_subset _ hm)
  | admitted h =>
    rw [List.dropLast_concat]
    exact h

/-- An event that tells of failure stands for the failure that has stopped the run. -/
theorem admits (h : Agrees events r) {event : Event} (hm : event ∈ events) (hfail : event.ok = false) :
    ∃ l, r = .error (.located l) ∧ l.operation ≠ .resolve ∧ event.Admits l := by
  have hno {events : List Event} (hok : ∀ event ∈ events, event.ok = true) (hm : event ∈ events) : False := by
    simpa [hfail] using hok event hm
  cases h with
  | well _ h => exact (hno h hm).elim
  | silent h => exact (hno h hm).elim
  | @admitted _ _ l h hevent hl =>
    rcases List.mem_append.1 hm with hm | hm
    · exact (hno h hm).elim
    · rw [List.mem_singleton.1 hm]
      exact ⟨l, rfl, hl, hevent⟩

theorem exists_admits (h : Agrees events r) {l : Located} (hr : r = .error (.located l))
    (hl : l.operation ≠ .resolve) : ∃ event ∈ events, event.ok = false := by
  cases h with
  | well => cases hr
  | silent _ hs =>
    cases hr
    exact absurd (hs l rfl) hl
  | @admitted _ event _ _ hevent => exact ⟨event, by simp, hevent.ok⟩

end Agrees

namespace Build

open Cursor (standing recorded depthAt)

/-- An event of something that fails before a call is made: there is no directory on record to go down
into, or a content can't be encoded. -/
inductive Unprompted (root : Path) (encoding : Text) (es : List Entry) : Event → Prop where
  | lost {earlier later : List Entry} {p e : Entry} {level : Int} :
      es = earlier ++ e :: later → earlier.getLast? = some p → p.level ≤ level → level < e.level →
      ((recorded earlier).length : Int) ≤ depthAt earlier level →
      Unprompted root encoding es
        ((searching earlier.length (standing root earlier level).location).event (some lostReason))
  | unable {earlier later : List Entry} {e : Entry} {content : Text} {f : Failure} :
      es = earlier ++ e :: later → e.content = some content → encodeContent encoding content = .error f →
      Unprompted root encoding es
        ((writing earlier.length (spot root earlier e) content).event (some f.reason))

/-! What is written goes to the file that is open. -/

def Orderly : Option Path → List Errand → Prop
  | _, [] => True
  | open?, errand :: rest =>
    (∀ a path bytes, errand = .attempt a (.write path bytes) → open? = some path) ∧
      Orderly (errand.leaves open?) rest

theorem orderly_append {open? : Option Path} {xs ys : List Errand} :
    Orderly open? (xs ++ ys) ↔ Orderly open? xs ∧ Orderly (xs.foldl Errand.leaves open?) ys := by
  induction xs generalizing open? with
  | nil => simp [Orderly]
  | cons x xs ih => simp [Orderly, ih, and_assoc]

theorem Orderly.append {xs ys : List Errand} (hx : Orderly none xs) (htidy : Tidy xs)
    (hy : Orderly none ys) : Orderly none (xs ++ ys) := by
  refine orderly_append.2 ⟨hx, ?_⟩
  rw [htidy]
  exact hy

theorem orderly_descents (index n : Nat) (cursor : Cursor) : Orderly none (descents index n cursor) := by
  induction n generalizing cursor with
  | zero => trivial
  | succ n ih =>
    rw [descents]
    split
    · simp [Orderly]
    · simp [Orderly]
    · exact ⟨by simp, ih _⟩

theorem orderly_ascents (index n : Nat) (cursor : Cursor) : Orderly none (ascents index n cursor) := by
  induction n generalizing cursor with
  | zero => trivial
  | succ n ih => exact ⟨by simp, ih _⟩

theorem orderly_arrivals (root : Path) (earlier : List Entry) (e : Entry) :
    Orderly none (arrivals root earlier e) := by
  unfold arrivals
  split
  · trivial
  · split
    · exact orderly_descents ..
    · exact orderly_ascents ..

theorem orderly_placing (index : Nat) (cursor : Cursor) (name : Text) :
    Orderly none (placing index cursor name) := by
  unfold placing
  split
  · trivial
  · simp [Orderly]

theorem path_of_contentErrand {encoding content : Text} {index : Nat} {path p : Path} {a : Attempt}
    {bytes : Bytes} (h : contentErrand encoding index path content = .attempt a (.write p bytes)) :
    path = p := by
  unfold contentErrand at h
  split at h
  · cases h
  · cases h
    rfl

theorem orderly_fileErrands (encoding : Text) (index : Nat) (e : Entry) (path : Path) :
    Orderly none (fileErrands encoding index e path) := by
  have hmode : Orderly none (e.mode.toList.map fun mode =>
      .attempt (changingMode index path mode) (.setMode path mode)) := by
    cases e.mode <;> simp [Orderly]
  unfold fileErrands
  cases e.content with
  | none => exact ⟨by simp, by simp, hmode⟩
  | some content =>
    refine ⟨by simp, fun a p bytes h => ?_, by simp, hmode⟩
    rw [← path_of_contentErrand h]
    rfl

theorem orderly_nodeErrands (encoding : Text) (index : Nat) (e : Entry) (path : Path) :
    Orderly none (nodeErrands encoding index e path) := by
  unfold nodeErrands
  split
  · simp [Orderly]
  · split
    · simp [Orderly]
    · exact orderly_fileErrands ..

theorem orderly_ownerErrands (index : Nat) (e : Entry) (path : Path) :
    Orderly none (ownerErrands index e path) := by
  unfold ownerErrands
  split
  · simp [Orderly]
  · trivial

theorem orderly_entryErrands (root : Path) (encoding : Text) (earlier : List Entry) (e : Entry) :
    Orderly none (entryErrands root encoding earlier e) :=
  (orderly_arrivals ..).append (tidy_arrivals ..)
    ((orderly_placing ..).append (tidy_placing ..)
      ((orderly_nodeErrands ..).append (tidy_nodeErrands ..) (orderly_ownerErrands ..)))

theorem orderly_flatten {parts : List (List Errand)} (h : ∀ part ∈ parts, Tidy part ∧ Orderly none part) :
    Orderly none parts.flatten := by
  induction parts with
  | nil => trivial
  | cons part parts ih =>
    obtain ⟨htidy, hpart⟩ := h part List.mem_cons_self
    exact hpart.append htidy (ih fun part hm => h part (List.mem_cons_of_mem _ hm))

theorem orderly_agenda (root : Path) (encoding : Text) (es : List Entry) :
    Orderly none (agenda root encoding es) := by
  refine orderly_flatten fun part hm => ?_
  obtain ⟨earlier, e, later, -, rfl⟩ := Plan.mem_each.1 hm
  exact ⟨tidy_entryErrands .., orderly_entryErrands ..⟩

/-! What a single errand has told. -/

variable {o : Options} {root : Path} {es : List Entry} {open? : Option Path} {a : Attempt} {c : Call}
  {f : Failure} {error : Option Text} {log : List Exchange} {r : Except Stop Unit} {s s' : Stop}

theorem Attempt.Fits.reports (h : a.Fits c) : (a.event none).Reports c (.ok ()) :=
  ⟨⟨_, h.operation, rfl⟩, by rw [h.path]; rfl, rfl, rfl⟩

theorem Attempt.Fits.reports_failure (h : a.Fits c) (f : Failure) :
    (a.event (some f.reason)).Reports c (.error f) :=
  ⟨⟨_, h.operation, rfl⟩, by rw [h.path]; rfl, rfl, rfl⟩

/-- No call is to refuse a name. -/
theorem Attempt.Fits.ne_resolve (h : a.Fits c) : a.operation ≠ .resolve := by
  intro hop
  have hmem := h.operation
  rw [hop] at hmem
  cases c <;> simp [Call.operations] at hmem

theorem Attempt.admits (a : Attempt) (reason : Text) : (a.event (some reason)).Admits (a.located reason) :=
  ⟨rfl, rfl, rfl, rfl⟩

theorem Attempt.Fits.event?_eq (h : a.Fits c) : c.event? = none := by
  have hpath := h.path
  cases c with
  | observe event => cases hpath
  | _ => rfl

theorem Tells.of_quiet (h : Tells o a error log r) (hobserved : o.observed = true) (hquiet : Quiet log) :
    log = [(.observe (a.event error), .ok ())] ∧ r = .ok () := by
  cases h with
  | alone ho => cases hobserved.symm.trans ho
  | heard => exact ⟨rfl, rfl⟩
  | unheard => cases hquiet _ List.mem_cons_self rfl

theorem Fails.of_quiet (h : Fails o a f log s) (hobserved : o.observed = true) (hquiet : Quiet log) :
    (log = [(.observe (a.event (some f.reason)), .ok ())] ∧ s = .located (a.located f.reason)) ∨
      (log = [] ∧ f.isExpected = false ∧ s = .stray f) := by
  cases h with
  | told _ h => exact .inl ⟨(h.of_quiet hobserved hquiet).1, rfl⟩
  | untold _ h =>
    obtain ⟨-, hr⟩ := h.of_quiet hobserved hquiet
    cases hr
  | stray hf => exact .inr ⟨rfl, hf, rfl⟩

theorem Parts.of_quiet (h : Parts s open? log s') (hquiet : Quiet log) : s' = s ∧ told log = [] := by
  cases h with
  | nothing => exact ⟨rfl, rfl⟩
  | closed => exact ⟨rfl, rfl⟩
  | unclosed => cases hquiet _ List.mem_cons_self rfl

theorem Parts.recounts {unprompted : Event → Prop} (h : Parts s open? log s') :
    Recounts unprompted open? log := by
  cases h with
  | nothing => exact .nil
  | closed => exact .close .nil
  | unclosed => exact .close .nil

/-- A failure is told of and is what stops the run, whatever file is closed then. -/
theorem agrees_of_admits {event : Event} {l : Located} {tail : List Exchange} (hadmits : event.Admits l)
    (hl : l.operation ≠ .resolve) (hparts : Parts (.located l) open? tail s') (hquiet : Quiet tail) :
    Agrees (told ((.observe event, .ok ()) :: tail)) (.error s' : Except Stop Unit) := by
  obtain ⟨rfl, htail⟩ := hparts.of_quiet hquiet
  show Agrees (event :: told tail) _
  have hno : ∀ event ∈ ([] : List Event), event.ok = true := by simp
  rw [htail]
  exact .admitted hno hadmits hl

theorem Goes.recounts {errand : Errand} (h : Goes o open? errand log r) (hobserved : o.observed = true)
    (hdue : Due root o.encoding es errand)
    (hopen : ∀ a path bytes, errand = .attempt a (.write path bytes) → open? = some path)
    (hquiet : Quiet log) (hexpected : ∀ c f, (c, .error f) ∈ log → f.isExpected = true) :
    Recounts (Unprompted root o.encoding es) open? log ∧ Agrees (told log) r := by
  have hwrite {a : Attempt} {c : Call} (he : errand = .attempt a c) :
      ∀ path bytes, c = .write path bytes → open? = some path :=
    fun path bytes hc => hopen a path bytes (hc ▸ he)
  cases h with
  | @done a c log htold =>
    obtain ⟨hfits⟩ := hdue
    obtain ⟨rfl, -⟩ := htold.of_quiet hobserved fun x hx => hquiet x (List.mem_cons_of_mem _ hx)
    refine ⟨.call (hwrite rfl) hfits.reports .nil, .well () ?_⟩
    rw [told_cons hfits.event?_eq]
    exact List.forall_mem_singleton.2 rfl
  | untold htold _ =>
    obtain ⟨-, hr⟩ := htold.of_quiet hobserved fun x hx => hquiet x (by simp [hx])
    cases hr
  | @failed a c f log tail s s' hfails hparts =>
    obtain ⟨hfits⟩ := hdue
    have htail : Quiet tail := fun x hx => hquiet x (by simp [hx])
    rcases hfails.of_quiet hobserved fun x hx => hquiet x (by simp [hx]) with
      ⟨rfl, rfl⟩ | ⟨-, hf, -⟩
    · refine ⟨.call (hwrite rfl) (hfits.reports_failure f) hparts.recounts, ?_⟩
      rw [told_cons hfits.event?_eq]
      exact agrees_of_admits (a.admits f.reason) hfits.ne_resolve hparts htail
    · have := hexpected c f List.mem_cons_self
      simp [hf] at this
  | closed => exact ⟨.close .nil, .well () (by simp [told, Call.event?])⟩
  | unclosed => cases hquiet _ List.mem_cons_self rfl
  | @unable a f log tail s s' hfails hparts =>
    obtain ⟨hlogs, htail⟩ := quiet_append.1 hquiet
    rcases hfails.of_quiet hobserved hlogs with ⟨rfl, rfl⟩ | ⟨rfl, -, rfl⟩
    · cases hdue with
      | unable hes hcontent hcode =>
        exact ⟨.unprompted (.unable hes hcontent hcode) hparts.recounts,
          agrees_of_admits (Attempt.admits _ f.reason) (by simp [writing, Attempt.located]) hparts htail⟩
    · obtain ⟨rfl, htold⟩ := hparts.of_quiet htail
      exact ⟨hparts.recounts, .silent (by simp [htold]) (by simp)⟩
  | @lost index here log tail s' htold hparts =>
    obtain ⟨hlogs, htail⟩ := quiet_append.1 hquiet
    obtain ⟨rfl, -⟩ := htold.of_quiet hobserved hlogs
    cases hdue with
    | lost hes hp hle hlt hnone =>
      exact ⟨.unprompted (.lost hes hp hle hlt hnone) hparts.recounts,
        agrees_of_admits ⟨rfl, rfl, rfl, rfl⟩ (by simp [lostAt]) hparts htail⟩
  | lostUntold htold _ =>
    obtain ⟨-, hr⟩ := htold.of_quiet hobserved (quiet_append.1 hquiet).1
    cases hr
  | halted hparts =>
    obtain ⟨rfl, htold⟩ := hparts.of_quiet hquiet
    refine ⟨hparts.recounts, .silent (by simp [htold]) ?_⟩
    rintro l rfl
    cases hdue with
    | refused hl => exact hl

theorem Proceeds.recounts {errands : List Errand} (h : Proceeds o open? errands log r)
    (hobserved : o.observed = true) (hdue : ∀ errand ∈ errands, Due root o.encoding es errand)
    (horderly : Orderly open? errands) (hquiet : Quiet log)
    (hexpected : ∀ c f, (c, .error f) ∈ log → f.isExpected = true) :
    Recounts (Unprompted root o.encoding es) open? log ∧ Agrees (told log) r := by
  induction h with
  | finish => exact ⟨.nil, .well () (by simp [told])⟩
  | stop hgoes => exact hgoes.recounts hobserved (hdue _ List.mem_cons_self) horderly.1 hquiet hexpected
  | @advance open? errand rest l₁ l₂ r hgoes _ ih =>
    obtain ⟨hquiet₁, hquiet₂⟩ := quiet_append.1 hquiet
    obtain ⟨hfirst, hok⟩ := hgoes.recounts hobserved (hdue _ List.mem_cons_self) horderly.1 hquiet₁
      fun c f hm => hexpected c f (List.mem_append_left _ hm)
    obtain ⟨hrest, hagrees⟩ := ih (fun errand hm => hdue errand (List.mem_cons_of_mem _ hm)) horderly.2
      hquiet₂ fun c f hm => hexpected c f (List.mem_append_right _ hm)
    rw [← hgoes.all_ok.2] at hrest
    refine ⟨hfirst.append hrest, ?_⟩
    rw [told_append]
    exact hagrees.after hok.all_ok

/-- An observer that never fails, of a run in which no file fails to close and nothing fails unexpectedly,
is told of each call to the file system right after it, by its name and path, and whether it went well.
What else it is told of has failed before a call. Only the last event can be of a failure; it is so if and
only if a failure other than a refused name is located, and both say the same. -/
theorem observer_is_told (o : Options) (hobserved : o.observed = true) (root : Path) (es : List Entry)
    {r : Except Stop (List Path)} (h : Ends (Build.entries o root es) log r) (hquiet : Quiet log)
    (hexpected : ∀ c f, (c, .error f) ∈ log → f.isExpected = true) :
    (∀ before c answer after, log = before ++ (c, answer) :: after → c.isPrimitive = true →
      (∃ event rest, after = (.observe event, .ok ()) :: rest ∧ event.Reports c answer) ∧
        ∀ path bytes, c = .write path bytes → before.foldl held none = some path) ∧
    (∀ before event answer after, log = before ++ (.observe event, answer) :: after →
      Unprompted root o.encoding es event ∨
        ∃ init c answer, before = init ++ [(c, answer)] ∧ event.Reports c answer) ∧
    (∀ event ∈ (told log).dropLast, event.ok = true) ∧
    ((∃ event ∈ told log, event.ok = false) ↔
      ∃ l, r = .error (.located l) ∧ l.operation ≠ .resolve) ∧
    ∀ event ∈ told log, event.ok = false → ∀ l, r = .error (.located l) → event.Admits l := by
  obtain ⟨u, hproceeds, rfl⟩ := proceeds_of_entries h
  obtain ⟨hrecounts, hagrees⟩ := hproceeds.recounts hobserved (fun _ => due_agenda)
    (orderly_agenda root o.encoding es) hquiet hexpected
  refine ⟨fun _ _ _ _ hlog hc => (hlog ▸ hrecounts).followed hc,
    fun _ _ _ _ hlog => (hlog ▸ hrecounts).prompted, hagrees.dropLast_ok, ⟨?_, ?_⟩, ?_⟩
  · rintro ⟨event, hm, hfail⟩
    obtain ⟨l, rfl, hl, -⟩ := hagrees.admits hm hfail
    exact ⟨l, rfl, hl⟩
  · rintro ⟨l, hr, hl⟩
    cases u with
    | ok u => cases hr
    | error s =>
      cases hr
      exact hagrees.exists_admits rfl hl
  · intro event hm hfail l hr
    obtain ⟨l', rfl, -, hadmits⟩ := hagrees.admits hm hfail
    cases hr
    exact hadmits

def noteEntries : List Entry :=
  [{ name := "a", level := 0, line := 1, isDirectory := true },
    { name := "b", level := 1, line := 2, content := some "x" }]

def making : Attempt :=
  { index := 0, operation := .mkdir, path := .ofText "a", failure := "Can't create directory a"
    metadata := [("mode", .null)] }

def creating : Attempt :=
  { index := 1, operation := .create, path := .ofText "a/b", failure := "Can't create file a/b" }

/-- A directory, and in it a file that can be made but not written. -/
def refusedWrite : List Exchange :=
  [(.makeDirectory (.ofText "a") none, .ok ()), (.observe (making.event none), .ok ()),
    (.visit (.ofText "a"), .ok ()), (.observe ((moving true 1 (.ofText "a")).event none), .ok ()),
    (.createFile (.ofText "a/b"), .ok ()), (.observe (creating.event none), .ok ()),
    (.write (.ofText "a/b") [0x78], .error (.system .notPermitted)),
    (.observe ((writing 1 (.ofText "a/b") "x").event (some "Operation not permitted")), .ok ()),
    (.close (.ofText "a/b"), .ok ())]

theorem told_of_refused_write :
    ∃ l, Ends (Build.entries { observed := true } .here noteEntries) refusedWrite
        (.error (.located l)) ∧
      l.operation = .write ∧ (told refusedWrite).map Event.ok = [true, true, true, false] ∧
      ∃ event ∈ told refusedWrite, event.ok = false ∧ event.Admits l := by
  have hends : Ends (Build.entries { observed := true } .here noteEntries) refusedWrite
      (.error (.located ((writing 1 (.ofText "a/b") "x").located "Operation not permitted"))) :=
    .well (.well (.well (.well (.well (.well (.ask (.well (.well (.done _)))))))))
  have hquiet : Quiet refusedWrite := by
    intro x hx hc
    simp only [refusedWrite, List.mem_cons, List.not_mem_nil, or_false] at hx
    rcases hx with rfl | rfl | rfl | rfl | rfl | rfl | rfl | rfl | rfl <;> first | rfl | cases hc
  have hexpected : ∀ c f, (c, .error f) ∈ refusedWrite → f.isExpected = true := by
    intro c f hm
    simp only [refusedWrite, List.mem_cons, Prod.mk.injEq, Except.error.injEq, reduceCtorEq, and_false,
      List.not_mem_nil, or_false, false_or] at hm
    obtain ⟨-, rfl⟩ := hm
    rfl
  obtain ⟨-, -, -, hiff, hadmits⟩ := observer_is_told _ rfl .here noteEntries hends hquiet hexpected
  obtain ⟨event, hm, hfail⟩ := hiff.2 ⟨_, rfl, by simp [writing, Attempt.located]⟩
  exact ⟨_, hends, rfl, rfl, event, hm, hfail, hadmits event hm hfail _ rfl⟩

end Build

end TreePlan
