import TreePlan.Proofs.Build.FirstFailure

/-! The files that a run opens. One is open at a time, and each is closed in the entry that has opened it,
whatever fails on the way; while it is open, the observer is told of it and it is written at most once,
and nothing else is called. -/

namespace TreePlan

open Run (Ends)

namespace Call

def isWrite : Call → Bool
  | .write _ _ => true
  | _ => false

/-- Whether a call opens, writes or closes a file. -/
def handles : Call → Bool
  | .createFile _ | .write _ _ | .close _ => true
  | _ => false

end Call

/-- A file that is open, and whether it has been written. -/
structure OpenFile where
  path : Path
  written : Bool

/-- What an exchange makes of the file that is open, where it is admitted. -/
inductive Handles : Option OpenFile → Exchange → Option OpenFile → Prop where
  | opened (path : Path) : Handles none (.createFile path, .ok ()) (some ⟨path, false⟩)
  | refused (path : Path) (f : Failure) : Handles none (.createFile path, .error f) none
  | written (path : Path) (content : Bytes) (answer : Answer) :
      Handles (some ⟨path, false⟩) (.write path content, answer) (some ⟨path, true⟩)
  | closed (file : OpenFile) (answer : Answer) : Handles (some file) (.close file.path, answer) none
  | told (file? : Option OpenFile) (event : Event) (answer : Answer) :
      Handles file? (.observe event, answer) file?
  | other {c : Call} (answer : Answer) : c.handles = false → Handles none (c, answer) none

/-- Exchanges that are admitted one after the other. -/
inductive Keeps : Option OpenFile → List Exchange → Option OpenFile → Prop where
  | nil (file? : Option OpenFile) : Keeps file? [] file?
  | cons {s t u : Option OpenFile} {x : Exchange} {log : List Exchange} :
      Handles s x t → Keeps t log u → Keeps s (x :: log) u

/-- What can be exchanged about a file that is open. -/
def Using (path : Path) (log : List Exchange) : Prop :=
  ∀ x ∈ log, x.1.isObserve = true ∨ ∃ content, x.1 = .write path content

/-- A log in which every file that is opened is closed next, and is written at most once before. -/
structure Disciplined (log : List Exchange) : Prop where
  closes : ∀ before path after, log = before ++ (.createFile path, .ok ()) :: after →
    ∃ during answer rest, after = during ++ (.close path, answer) :: rest ∧ Using path during ∧
      (during.filter fun x => x.1.isWrite).length ≤ 1
  opens : ∀ before path answer after, log = before ++ (.close path, answer) :: after →
    ∃ init during, before = init ++ (.createFile path, .ok ()) :: during ∧ Using path during
  writes : ∀ before path content answer after, log = before ++ (.write path content, answer) :: after →
    ∃ init during, before = init ++ (.createFile path, .ok ()) :: during ∧
      ∀ x ∈ during, x.1.isObserve = true
  /-- Whatever else is asked of the file system is asked after all files have been closed. -/
  waits : ∀ before c answer after, log = before ++ (c, answer) :: after → c.isPrimitive = true →
    c.isWrite = false → ∀ init path during, before = init ++ (.createFile path, .ok ()) :: during →
      ∃ answer, (.close path, answer) ∈ during

variable {log l₁ l₂ before after : List Exchange} {s t u : Option OpenFile} {file : OpenFile}

theorem keeps_append : Keeps s (l₁ ++ l₂) u ↔ ∃ t, Keeps s l₁ t ∧ Keeps t l₂ u := by
  refine ⟨fun h => ?_, ?_⟩
  · induction l₁ generalizing s with
    | nil => exact ⟨s, .nil s, h⟩
    | cons x l₁ ih =>
      cases h with
      | cons hx h =>
        obtain ⟨t, h₁, h₂⟩ := ih h
        exact ⟨t, .cons hx h₁, h₂⟩
  · rintro ⟨t, h₁, h₂⟩
    induction h₁ with
    | nil => exact h₂
    | cons hx _ ih => exact .cons hx (ih h₂)

theorem keeps_cut {x : Exchange} :
    Keeps s (before ++ x :: after) u ↔ ∃ t t', Keeps s before t ∧ Handles t x t' ∧ Keeps t' after u := by
  rw [keeps_append]
  refine ⟨?_, ?_⟩
  · rintro ⟨t, hbefore, h⟩
    cases h with
    | cons hx hafter => exact ⟨t, _, hbefore, hx, hafter⟩
  · rintro ⟨t, t', hbefore, hx, hafter⟩
    exact ⟨t, hbefore, .cons hx hafter⟩

namespace Keeps

/-- A file that is open in the end was so from the start, or has been opened on the way. -/
theorem since (h : Keeps s log (some file)) :
    (∃ w, s = some ⟨file.path, w⟩ ∧ Using file.path log ∧
      (file.written = false → w = false ∧ ∀ x ∈ log, x.1.isObserve = true)) ∨
    ∃ init during, log = init ++ (.createFile file.path, .ok ()) :: during ∧ Using file.path during ∧
      (file.written = false → ∀ x ∈ during, x.1.isObserve = true) := by
  generalize hend : some file = u at h
  induction h with
  | nil s =>
    subst hend
    exact .inl ⟨file.written, rfl, by simp [Using], by simp⟩
  | @cons s t u x log hx _ ih =>
    rcases ih hend with ⟨w, rfl, husing, hquiet⟩ | ⟨init, during, rfl, hduring⟩
    · cases hx with
      | opened => exact .inr ⟨[], log, rfl, husing, fun hw => (hquiet hw).2⟩
      | written path content answer =>
        refine .inl ⟨false, rfl, List.forall_mem_cons.2 ⟨.inr ⟨content, rfl⟩, husing⟩, fun hw => ?_⟩
        simpa using (hquiet hw).1
      | told _ event answer =>
        exact .inl ⟨w, rfl, List.forall_mem_cons.2 ⟨.inl rfl, husing⟩,
          fun hw => ⟨(hquiet hw).1, List.forall_mem_cons.2 ⟨rfl, (hquiet hw).2⟩⟩⟩
    · exact .inr ⟨x :: init, during, rfl, hduring⟩

/-- A file that is open in the end, but not at first, has been opened on the way. -/
theorem opened (h : Keeps none log (some file)) :
    ∃ init during, log = init ++ (.createFile file.path, .ok ()) :: during ∧ Using file.path during ∧
      (file.written = false → ∀ x ∈ during, x.1.isObserve = true) := by
  rcases h.since with ⟨w, hw, -⟩ | h
  · cases hw
  · exact h

/-- A file that is open at first, but not in the end, is closed on the way, after one write at most. -/
theorem closed (h : Keeps (some file) log none) :
    ∃ during answer rest, log = during ++ (.close file.path, answer) :: rest ∧ Using file.path during ∧
      (during.filter fun x => x.1.isWrite).length + file.written.toNat ≤ 1 := by
  generalize hstart : some file = s at h
  generalize hend : none = u at h
  induction h generalizing file with
  | nil s =>
    subst hstart
    cases hend
  | @cons s t u x log hx _ ih =>
    subst hstart
    cases hx with
    | written path content answer =>
      obtain ⟨during, answer', rest, rfl, husing, hcount⟩ := ih rfl hend
      refine ⟨(.write path content, answer) :: during, answer', rest, rfl,
        List.forall_mem_cons.2 ⟨.inr ⟨content, rfl⟩, husing⟩, ?_⟩
      simpa [Call.isWrite] using hcount
    | closed _ answer => exact ⟨[], answer, log, rfl, by simp [Using], by simpa using Bool.toNat_le _⟩
    | told _ event answer =>
      obtain ⟨during, answer', rest, rfl, husing, hcount⟩ := ih rfl hend
      exact ⟨(.observe event, answer) :: during, answer', rest, rfl,
        List.forall_mem_cons.2 ⟨.inl rfl, husing⟩, hcount⟩

/-- If no file is open at first nor in the end, a log is disciplined. -/
theorem disciplined (h : Keeps none log none) : Disciplined log where
  closes before path after hlog := by
    obtain ⟨t, t', -, hx, hafter⟩ := keeps_cut.1 (hlog ▸ h)
    cases hx with
    | opened => exact hafter.closed
    | other _ hc => cases hc
  opens before path answer after hlog := by
    obtain ⟨t, t', hbefore, hx, -⟩ := keeps_cut.1 (hlog ▸ h)
    cases hx with
    | closed file =>
      obtain ⟨init, during, hb, husing, -⟩ := hbefore.opened
      exact ⟨init, during, hb, husing⟩
    | other _ hc => cases hc
  writes before path content answer after hlog := by
    obtain ⟨t, t', hbefore, hx, -⟩ := keeps_cut.1 (hlog ▸ h)
    cases hx with
    | written =>
      obtain ⟨init, during, hb, -, hquiet⟩ := hbefore.opened
      exact ⟨init, during, hb, hquiet rfl⟩
    | other _ hc => cases hc
  waits before c answer after hlog hc hw init path during hb := by
    obtain ⟨t, t', hbefore, hx, -⟩ := keeps_cut.1 (hlog ▸ h)
    have hnone : t = none := by
      cases hx with
      | opened | refused | other => rfl
      | written => cases hw
      | closed | told => cases hc
    subst hb hnone
    obtain ⟨_, _, -, hopen, hduring⟩ := keeps_cut.1 hbefore
    cases hopen with
    | opened =>
      obtain ⟨used, answer', rest, rfl, -⟩ := hduring.closed
      exact ⟨answer', by simp⟩
    | other _ hc => cases hc

end Keeps

namespace Build

variable {α β : Type} {o : Options} {index : Nat} {path : Path}

/-- However a part of a run goes, whatever is open stays as it is. -/
def Spares (b : Build α) : Prop := ∀ s log r, Ends b.run log r → Keeps s log s

/-- However a part of a run goes, it leaves no file open if none was. -/
def Shuts (b : Build α) : Prop := ∀ log r, Ends b.run log r → Keeps none log none

/-- However a part of a run goes, a file that has been opened just before is still open. -/
def Leaves (path : Path) (b : Build α) : Prop :=
  ∀ log r, Ends b.run log r → ∃ w, Keeps (some ⟨path, false⟩) log (some ⟨path, w⟩)

theorem spares_pure (a : α) : Spares (pure a : Build α) := by
  intro s log r h
  obtain ⟨rfl, -⟩ := ends_pure.1 h
  exact .nil s

theorem spares_throw (stop : Stop) : Spares (throw stop : Build α) := by
  intro s log r h
  obtain ⟨rfl, -⟩ := ends_throw.1 h
  exact .nil s

theorem Spares.bind {b : Build α} {f : α → Build β} (hb : Spares b) (hf : ∀ a, Spares (f a)) :
    Spares (b >>= f) := by
  intro s log r h
  rcases ends_bind.1 h with ⟨_, hs, rfl⟩ | ⟨l₁, a, l₂, h₁, h₂, rfl⟩
  · exact hb _ _ _ hs
  · exact keeps_append.2 ⟨s, hb _ _ _ h₁, hf a _ _ _ h₂⟩

theorem Spares.shuts {b : Build α} (h : Spares b) : Shuts b := h none

theorem Shuts.bind {b : Build α} {f : α → Build β} (hb : Shuts b) (hf : ∀ a, Shuts (f a)) :
    Shuts (b >>= f) := by
  intro log r h
  rcases ends_bind.1 h with ⟨_, hs, rfl⟩ | ⟨l₁, a, l₂, h₁, h₂, rfl⟩
  · exact hb _ _ hs
  · exact keeps_append.2 ⟨none, hb _ _ h₁, hf a _ _ h₂⟩

theorem spares_tell (o : Options) (a : Attempt) (error : Option Text) : Spares (tell o a error) := by
  intro s log r h
  cases tells_of_ends h with
  | alone => exact .nil s
  | heard => exact .cons (.told ..) (.nil s)
  | unheard => exact .cons (.told ..) (.nil s)

theorem spares_settle (o : Options) (a : Attempt) (tells : Bool) (answer : Answer) :
    Spares (settle o a tells answer) := by
  cases answer with
  | ok u =>
    simp only [settle]
    split
    · exact spares_tell o a none
    · exact spares_pure ()
  | error f =>
    simp only [settle]
    split
    · exact (spares_tell o a _).bind fun _ => spares_throw _
    · exact spares_throw _

theorem shuts_attempt (o : Options) (a : Attempt) {c : Call} (hc : c.handles = false) :
    Shuts (attempt o a c) := by
  intro log r h
  obtain ⟨answer, l, rfl, hl⟩ := ends_call_bind.1 h
  exact .cons (.other answer hc) (spares_settle o a true answer none _ _ hl)

theorem leaves_writeContent (content : Text) : Leaves path (writeContent o index path content) := by
  intro log r h
  unfold writeContent at h
  dsimp only at h
  cases hcode : encodeContent o.encoding content with
  | error f =>
    rw [hcode] at h
    exact ⟨false, spares_settle o _ true _ _ _ _ h⟩
  | ok bytes =>
    rw [hcode] at h
    obtain ⟨answer, l, rfl, hl⟩ := ends_call_bind.1 h
    exact ⟨true, .cons (.written path bytes answer) (spares_settle o _ true answer _ _ _ hl)⟩

theorem Spares.leaves {b : Build α} (h : Spares b) : Leaves path b := fun log r hr => ⟨false, h _ log r hr⟩

theorem Spares.bind_leaves {b : Build α} {f : α → Build β} (hb : Spares b) (hf : ∀ a, Leaves path (f a)) :
    Leaves path (b >>= f) := by
  intro log r h
  rcases ends_bind.1 h with ⟨_, hs, rfl⟩ | ⟨l₁, a, l₂, h₁, h₂, rfl⟩
  · exact hb.leaves _ _ hs
  · obtain ⟨w, h₂⟩ := hf a _ _ h₂
    exact ⟨w, keeps_append.2 ⟨_, hb _ _ _ h₁, h₂⟩⟩

/-- Whatever becomes of a file that is open, it is closed in the end. -/
theorem Leaves.closing {body : Build Unit} (hb : Leaves path body) {log : List Exchange}
    {r : Except Stop Unit} (h : Ends (closing path body).run log r) :
    Keeps (some ⟨path, false⟩) log none := by
  unfold Build.closing at h
  rcases ends_bind.1 h with ⟨s, hs, rfl⟩ | ⟨l₁, result, l₂, h₁, h₂, rfl⟩
  · obtain ⟨_, -, hr⟩ := ends_lift.1 hs
    cases hr
  · obtain ⟨_, hbody, -⟩ := ends_lift.1 h₁
    obtain ⟨w, hbody⟩ := hb _ _ hbody
    obtain ⟨answer, l, rfl, hl⟩ := ends_call_bind.1 h₂
    have hnil : l = [] := by
      cases answer with
      | ok u => exact (Run.ends_pure.1 hl).1
      | error f => exact (ends_throw.1 hl).1
    subst hnil
    exact keeps_append.2 ⟨_, hbody, .cons (.closed ⟨path, w⟩ answer) (.nil none)⟩

/-- What is done with a file while it is open. -/
def whileOpen (o : Options) (index : Nat) (e : Entry) (path : Path) : Build Unit := do
  tell o { index, operation := .create, path, failure := "Can't create file " ++ path.toText } none
  match e.content with
  | none => pure ()
  | some content => writeContent o index path content

theorem leaves_whileOpen (o : Options) (index : Nat) (e : Entry) (path : Path) :
    Leaves path (whileOpen o index e path) := by
  refine (spares_tell o _ none).bind_leaves fun _ => ?_
  cases e.content with
  | none => exact (spares_pure ()).leaves
  | some content => exact leaves_writeContent content

theorem shuts_buildFile (o : Options) (index : Nat) (e : Entry) (path : Path) :
    Shuts (buildFile o index e path) := by
  intro log r h
  unfold buildFile at h
  dsimp only at h
  obtain ⟨answer, l, rfl, hl⟩ := ends_call_bind.1 h
  cases answer with
  | error f =>
    rcases ends_bind.1 hl with ⟨_, hs, rfl⟩ | ⟨_, _, _, hs, -, -⟩
    · exact .cons (.refused path f) (spares_settle _ _ _ _ _ _ _ hs)
    · obtain ⟨_, hstop, -⟩ := fails_of_ends hs
      cases hstop
  | ok u =>
    refine .cons (.opened path) ?_
    have hbody := leaves_whileOpen o index e path
    -- the success of the call itself is told from within
    have hl : Ends (closing path (whileOpen o index e path) >>= fun _ => _ : Build Unit).run l r := hl
    rcases ends_bind.1 hl with ⟨_, hs, rfl⟩ | ⟨l₁, _, l₂, h₁, h₂, rfl⟩
    · exact hbody.closing hs
    · refine keeps_append.2 ⟨none, hbody.closing h₁, ?_⟩
      split at h₂
      · exact spares_pure () _ _ _ h₂
      · exact shuts_attempt o _ rfl _ _ h₂

theorem shuts_buildNode (o : Options) (index : Nat) (e : Entry) (path : Path) :
    Shuts (buildNode o index e path) := by
  unfold buildNode
  split
  · exact shuts_attempt o _ rfl
  · cases e.target with
    | some target => exact shuts_attempt o _ rfl
    | none => exact shuts_buildFile o index e path

theorem shuts_setOwner (o : Options) (index : Nat) (e : Entry) (path : Path) :
    Shuts (setOwner o index e path) := by
  unfold setOwner
  split
  · exact shuts_attempt o _ rfl
  · exact (spares_pure ()).shuts

theorem shuts_descend (o : Options) (index n : Nat) (cursor : Cursor) :
    Shuts (descend o index n cursor) := by
  induction n generalizing cursor with
  | zero => exact (spares_pure cursor).shuts
  | succ n ih =>
    rw [descend]
    split
    · exact (spares_throw _).shuts
    · exact ((spares_tell o _ _).bind fun _ => spares_throw _).shuts
    · exact (shuts_attempt o _ rfl).bind fun _ => ih _

theorem shuts_ascend (o : Options) (index n : Nat) (cursor : Cursor) :
    Shuts (ascend o index n cursor) := by
  induction n generalizing cursor with
  | zero => exact (spares_pure cursor).shuts
  | succ n ih => exact (shuts_attempt o _ rfl).bind fun _ => ih _

theorem shuts_arrive (o : Options) (index : Nat) (previous : Option Int) (level : Int) (cursor : Cursor) :
    Shuts (arrive o index previous level cursor) := by
  cases previous with
  | none => exact (spares_pure cursor).shuts
  | some previous =>
    show Shuts (navigate o index previous level cursor)
    unfold navigate
    split
    · exact shuts_descend o index _ cursor
    · exact shuts_ascend o index _ cursor

theorem spares_place (index : Nat) (cursor : Cursor) (name : Text) : Spares (place index cursor name) := by
  unfold place
  split
  · exact spares_pure _
  · exact spares_throw _

theorem shuts_buildEntry (o : Options) (index : Nat) (previous : Option Int) (cursor : Cursor) (e : Entry) :
    Shuts (buildEntry o index previous cursor e) :=
  (shuts_arrive o index previous e.level cursor).bind fun there =>
    (spares_place index there e.name).shuts.bind fun path =>
      (shuts_buildNode o index e path).bind fun _ =>
        (shuts_setOwner o index e path).bind fun _ => (spares_pure _).shuts

/-- Each entry of a course begins and ends with no file open. -/
theorem Course.keeps {index : Nat} {previous : Option Int} {cursor : Cursor} {es : List Entry}
    {logs : List (List Exchange)} {r : Except Stop (List Path)}
    (h : Course o index previous cursor es logs r) : ∀ part ∈ logs, Keeps none part none := by
  induction h with
  | finish => simp
  | stop he =>
    intro part hm
    rw [List.mem_singleton.1 hm]
    exact shuts_buildEntry _ _ _ _ _ _ _ he
  | advance he _ ih => exact List.forall_mem_cons.2 ⟨shuts_buildEntry _ _ _ _ _ _ _ he, ih⟩

theorem keeps_flatten {logs : List (List Exchange)} (h : ∀ part ∈ logs, Keeps none part none) :
    Keeps none logs.flatten none := by
  induction logs with
  | nil => exact .nil none
  | cons part logs ih =>
    obtain ⟨hpart, hlogs⟩ := List.forall_mem_cons.1 h
    exact keeps_append.2 ⟨none, hpart, ih hlogs⟩

/-- Whatever is answered to a run, every file that it opens is closed before anything else is asked of the
file system but one writing of it, and before the next entry is come to. -/
theorem opened_files_are_closed (o : Options) (root : Path) (es : List Entry) (script : Script) :
    Disciplined ((Build.entries o root es).play script).2 ∧
      ∃ logs, Course o 0 none { root } es logs ((Build.entries o root es).play script).1 ∧
        ((Build.entries o root es).play script).2 = logs.flatten ∧ ∀ part ∈ logs, Disciplined part := by
  obtain ⟨logs, hc, hlog⟩ := ends_buildFrom.1 (Run.ends_play script (Build.entries o root es))
  refine ⟨?_, logs, hc, hlog, fun part hm => (hc.keeps part hm).disciplined⟩
  rw [hlog]
  exact (keeps_flatten hc.keeps).disciplined

end Build

end TreePlan
