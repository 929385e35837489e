import Mathlib
import TreePlan.Proofs.Build.Arrival

/-! Where a run over the entries of a layout stops, and with what. A failure of the system, of an account
look-up or of an encoding is located at the entry that the run has come to, and so is a failure to tell
the observer. A failure to close a file is not: it leaves the run as it is, and hides the failure that
was on its way. -/

namespace TreePlan

open Run (Ends)

open Layout (Nested)

namespace Call

def isClose : Call → Bool
  | .close _ => true
  | _ => false

end Call

namespace Build

/-- No file has failed to close. -/
def Closed (log : List Exchange) : Prop := ∀ x ∈ log, x.1.isClose = true → x.2 = .ok ()

/-- A failure that came up while an entry was built: a call was answered so, or the content of the
entry can't be encoded. -/
def Arose (encoding : Text) (e : Entry) (log : List Exchange) (f : Failure) : Prop :=
  (∃ c, (c, .error f) ∈ log) ∨ ∃ content ∈ e.content, encodeContent encoding content = .error f

/-- How a part of a run that belongs to an entry can end, by what it has exchanged. -/
inductive Outcome (encoding : Text) (e : Entry) (index : Nat) (log : List Exchange) :
    Option Stop → Prop where
  | done : (∀ x ∈ log, x.2 = .ok ()) → Outcome encoding e index log none
  | located {l : Located} {f : Failure} :
      l.index = index → l.operation ≠ .resolve → Arose encoding e log f → l.reason = f.reason →
      Closed log → Outcome encoding e index log (some (.located l))
  | unclosed {path : Path} {f : Failure} :
      (Call.close path, .error f) ∈ log → Outcome encoding e index log (some (.stray f))
  | unexpected {f : Failure} :
      f.kind.isSystem = false → Arose encoding e log f → Closed log →
      Outcome encoding e index log (some (.stray f))

/-- What has stopped a run, if anything has. -/
def stop? {α : Type} : Except Stop α → Option Stop
  | .ok _ => none
  | .error s => some s

/-- However a part of a run goes, it has an outcome. -/
def Turns (encoding : Text) (e : Entry) (index : Nat) {α : Type} (b : Build α) : Prop :=
  ∀ log r, Ends b.run log r → Outcome encoding e index log (stop? r)

variable {encoding : Text} {e : Entry} {index : Nat} {α β : Type} {l₁ l₂ log : List Exchange}
  {out : Option Stop}

theorem Arose.mono {f : Failure} (h : Arose encoding e l₁ f) (hsub : l₁ ⊆ l₂) :
    Arose encoding e l₂ f := by
  rcases h with ⟨c, hm⟩ | h
  · exact .inl ⟨c, hsub hm⟩
  · exact .inr h

theorem closed_of_ok (h : ∀ x ∈ log, x.2 = .ok ()) : Closed log := fun x hx _ => h x hx

theorem closed_singleton {c : Call} (h : c.isClose = false) (answer : Answer) :
    Closed [(c, answer)] := by
  intro x hx hc
  rw [List.mem_singleton.1 hx, h] at hc
  simp at hc

/-- A stop stays what it is if more has been exchanged, so long as no other file has failed to close. -/
theorem Outcome.stop_mono {s : Stop} (h : Outcome encoding e index l₁ (some s)) (hsub : l₁ ⊆ l₂)
    (hnew : ∀ x ∈ l₂, x ∈ l₁ ∨ (x.1.isClose = true → x.2 = .ok ())) :
    Outcome encoding e index l₂ (some s) := by
  have hclosed (hc : Closed l₁) : Closed l₂ := by
    intro x hx hx'
    rcases hnew x hx with h | h
    · exact hc x h hx'
    · exact h hx'
  cases h with
  | located hi ho hf hr hc => exact .located hi ho (hf.mono hsub) hr (hclosed hc)
  | unclosed hm => exact .unclosed (hsub hm)
  | unexpected hk hf hc => exact .unexpected hk (hf.mono hsub) (hclosed hc)

theorem Outcome.stop_after {s : Stop} (h : Outcome encoding e index l₂ (some s)) (h₁ : Closed l₁) :
    Outcome encoding e index (l₁ ++ l₂) (some s) := by
  refine h.stop_mono (List.subset_append_right l₁ l₂) fun x hx => ?_
  rcases List.mem_append.1 hx with hx | hx
  · exact .inr (h₁ x hx)
  · exact .inl hx

/-- What went well before does not matter to an outcome. -/
theorem Outcome.after (h : Outcome encoding e index l₂ out) (h₁ : ∀ x ∈ l₁, x.2 = .ok ()) :
    Outcome encoding e index (l₁ ++ l₂) out := by
  cases out with
  | none =>
    cases h with
    | done h₂ => exact .done (List.forall_mem_append.2 ⟨h₁, h₂⟩)
  | some s => exact h.stop_after (closed_of_ok h₁)

theorem Outcome.before (h : Outcome encoding e index l₁ out) (h₂ : ∀ x ∈ l₂, x.2 = .ok ()) :
    Outcome encoding e index (l₁ ++ l₂) out := by
  cases out with
  | none =>
    cases h with
    | done h₁ => exact .done (List.forall_mem_append.2 ⟨h₁, h₂⟩)
  | some s =>
    refine h.stop_mono (List.subset_append_left l₁ l₂) fun x hx => ?_
    rcases List.mem_append.1 hx with hx | hx
    · exact .inl hx
    · exact .inr fun _ => h₂ x hx

theorem turns_pure (a : α) : Turns encoding e index (pure a : Build α) := by
  intro log r he
  obtain ⟨rfl, rfl⟩ := ends_pure.1 he
  exact .done (by simp)

theorem Turns.bind {b : Build α} {f : α → Build β} (hb : Turns encoding e index b)
    (hf : ∀ a, Turns encoding e index (f a)) : Turns encoding e index (b >>= f) := by
  intro log r he
  rcases ends_bind.1 he with ⟨s, h, rfl⟩ | ⟨l₁, a, l₂, h₁, h₂, rfl⟩
  · exact hb _ _ h
  · have hdone := hb _ _ h₁
    cases hdone with
    | done hok => exact (hf a _ _ h₂).after hok

theorem isSystem_of_unexpected {f : Failure} (h : f.isExpected = false) : f.kind.isSystem = false := by
  unfold Failure.isExpected at h
  cases hk : f.kind <;> simp_all [FailureClass.isExpected, FailureClass.isSystem]

theorem turns_tell (o : Options) (a : Attempt) (error : Option Text) :
    Turns encoding e a.index (tell o a error) := by
  unfold tell
  split
  · intro log r he
    obtain ⟨answer, l, rfl, h⟩ := ends_call_bind.1 he
    cases answer with
    | ok u =>
      obtain ⟨rfl, rfl⟩ := ends_pure.1 h
      exact .done (by simp)
    | error f =>
      dsimp only at h
      split at h
      · obtain ⟨rfl, rfl⟩ := ends_throw.1 h
        exact .located rfl (by simp [Attempt.untold]) (.inl ⟨_, List.mem_singleton.2 rfl⟩) rfl
          (closed_singleton rfl _)
      · next hk =>
        obtain ⟨rfl, rfl⟩ := ends_throw.1 h
        exact .unexpected (by simpa using hk) (.inl ⟨_, List.mem_singleton.2 rfl⟩)
          (closed_singleton rfl _)
  · exact turns_pure ()

/-- What comes of a failure that a call or an encoding has ended in. -/
theorem outcome_settle_error (o : Options) {a : Attempt} {tells : Bool} {f : Failure}
    {r : Except Stop Unit} (ha : a.operation ≠ .resolve) (hc : Closed l₁)
    (hf : Arose encoding e l₁ f)
    (he : Ends (settle o a tells (.error f)).run l₂ r) :
    Outcome encoding e a.index (l₁ ++ l₂) (stop? r) := by
  rw [settle] at he
  split at he
  · rcases ends_bind.1 he with ⟨s, h, rfl⟩ | ⟨l₃, _, l₄, h₁, h₂, rfl⟩
    · exact Outcome.stop_after (turns_tell o a _ _ _ h) hc
    · have htold : Outcome encoding e a.index l₃ none := turns_tell o a _ _ _ h₁
      obtain ⟨rfl, rfl⟩ := ends_throw.1 h₂
      rw [List.append_nil]
      cases htold with
      | done hok =>
        have hlocated : Outcome encoding e a.index l₁ (some (.located (a.located f.reason))) :=
          .located rfl ha hf rfl hc
        exact hlocated.before hok
  · next hx =>
    obtain ⟨rfl, rfl⟩ := ends_throw.1 he
    rw [List.append_nil]
    exact .unexpected (isSystem_of_unexpected (by simpa using hx)) hf hc

theorem turns_settled (o : Options) {a : Attempt} (tells : Bool) {c : Call} (hc : c.isClose = false)
    (ha : a.operation ≠ .resolve) : Turns encoding e a.index (call c >>= settle o a tells) := by
  intro log r he
  obtain ⟨answer, l, rfl, h⟩ := ends_call_bind.1 he
  rw [← List.singleton_append]
  cases answer with
  | ok u =>
    have htold : Turns encoding e a.index (settle o a tells (.ok u)) := by
      rw [settle]
      split
      · exact turns_tell o a none
      · exact turns_pure ()
    exact (htold _ _ h).after (by simp)
  | error f =>
    exact outcome_settle_error o ha (closed_singleton hc _) (.inl ⟨c, List.mem_singleton.2 rfl⟩) h

theorem turns_attempt (o : Options) {a : Attempt} {c : Call} (hc : c.isClose = false)
    (ha : a.operation ≠ .resolve) : Turns encoding e a.index (attempt o a c) :=
  turns_settled o true hc ha

theorem turns_closing {body : Build Unit} (path : Path) (hb : Turns encoding e index body) :
    Turns encoding e index (closing path body) := by
  intro log r he
  unfold closing at he
  rcases ends_bind.1 he with ⟨s, h, rfl⟩ | ⟨l₁, result, l₂, h₁, h₂, rfl⟩
  · obtain ⟨_, -, hr⟩ := ends_lift.1 h
    simp at hr
  · obtain ⟨_, hbody, hr⟩ := ends_lift.1 h₁
    cases hr
    obtain ⟨answer, l, rfl, h⟩ := ends_call_bind.1 h₂
    cases answer with
    | ok u =>
      obtain ⟨rfl, rfl⟩ := Run.ends_pure.1 h
      exact (hb _ _ hbody).before (by simp)
    | error f =>
      -- whatever the body has come to is lost
      obtain ⟨rfl, rfl⟩ := ends_throw.1 h
      have hm : (Call.close path, (.error f : Answer)) ∈ l₁ ++ [(Call.close path, .error f)] := by simp
      exact .unclosed hm

section Entry

variable (o : Options) (path : Path)

theorem turns_writeContent {content : Text} (hc : e.content = some content) :
    Turns o.encoding e index (writeContent o index path content) := by
  unfold writeContent
  dsimp only
  cases hcode : encodeContent o.encoding content with
  | error f =>
    intro log r he
    have hnone : Closed [] := by simp [Closed]
    exact outcome_settle_error o (by simp) hnone (.inr ⟨content, hc, hcode⟩) he
  | ok bytes => exact turns_attempt o rfl (by simp)

theorem turns_buildFile : Turns o.encoding e index (buildFile o index e path) := by
  unfold buildFile
  dsimp only
  rw [← bind_assoc]
  refine (turns_settled o false rfl (by simp)).bind fun _ => (turns_closing path ?_).bind fun _ => ?_
  · refine (turns_tell o _ none).bind fun _ => ?_
    cases hc : e.content with
    | none => exact turns_pure ()
    | some content => exact turns_writeContent o path hc
  · cases e.mode with
    | none => exact turns_pure ()
    | some mode => exact turns_attempt o rfl (by simp)

theorem turns_buildNode : Turns o.encoding e index (buildNode o index e path) := by
  unfold buildNode
  split
  · exact turns_attempt o rfl (by simp)
  · cases e.target with
    | some target => exact turns_attempt o rfl (by simp)
    | none => exact turns_buildFile o path

theorem turns_setOwner : Turns o.encoding e index (setOwner o index e path) := by
  unfold setOwner
  split
  · exact turns_attempt o rfl (by simp)
  · exact turns_pure ()

theorem turns_walk (down : Bool) (paths : List Path) :
    Turns o.encoding e index (walk o down index paths) := by
  induction paths with
  | nil => exact turns_pure ()
  | cons p paths ih =>
    have hop : (moving down index p).operation ≠ .resolve := by cases down <;> simp [moving]
    have hc : (Call.visit p).isClose = false := rfl
    exact (turns_attempt o hc hop).bind fun _ => ih

theorem turns_planned (root : Path) (earlier : List Entry) :
    Turns o.encoding e earlier.length (planned o root earlier e) :=
  (turns_walk o _ _).bind fun _ => (turns_buildNode o _).bind fun _ => turns_setOwner o _

theorem turns_buildEntry {root : Path} {earlier : List Entry} {cursor : Cursor}
    (h : cursor.Tracks root earlier) (hn : Nested (earlier ++ [e])) (hname : IsName e.name) :
    Turns o.encoding e earlier.length
      (buildEntry o earlier.length (earlier.getLast?.map Entry.level) cursor e) := by
  obtain ⟨next, -, heq⟩ := buildEntry_eq o h hn hname
  rw [heq]
  exact (turns_planned o root earlier).bind fun _ => turns_pure _

end Entry

variable {root : Path} {earlier es : List Entry} {cursor : Cursor} {o : Options}

/-- A course over entries goes through all of them without a failure, or stops at one of them with an
outcome of that entry, all before it having gone well. -/
theorem Course.outcome {previous : Option Int} {n : Nat} {logs : List (List Exchange)}
    {r : Except Stop (List Path)} (hc : Course o n previous cursor es logs r)
    (hlen : n = earlier.length) (hprev : previous = earlier.getLast?.map Entry.level)
    (h : cursor.Tracks root earlier) (hn : Nested (earlier ++ es)) (hsound : ∀ e ∈ es, e.IsSound) :
    ((∃ paths, r = .ok paths) ∧ ∀ x ∈ logs.flatten, x.2 = .ok ()) ∨
      ∃ init last e s, logs = init ++ [last] ∧ (∀ x ∈ init.flatten, x.2 = .ok ()) ∧
        es[init.length]? = some e ∧ r = .error s ∧
        Outcome o.encoding e (n + init.length) last (some s) := by
  -- the cursor tracks the entries before, so each entry has an outcome; the rest follows only on one
  -- that went well
  induction hc generalizing earlier with
  | finish => exact .inl ⟨⟨[], rfl⟩, by simp⟩
  | @stop index previous cursor e rest log s he =>
    subst hlen hprev
    rw [List.append_cons] at hn
    have hlog := turns_buildEntry o h hn.append_left (hsound e (by simp)).name _ _ he
    exact .inr ⟨[], log, e, s, rfl, by simp, rfl, rfl, hlog⟩
  | @advance index previous cursor next e rest log path logs r he hc ih =>
    subst hlen hprev
    rw [List.append_cons] at hn
    have hname := (hsound e (by simp)).name
    have hlog := turns_buildEntry o h hn.append_left hname _ _ he
    have hnext := tracks_of_ends o h hn.append_left hname he
    have hlevel : some e.level = (earlier ++ [e]).getLast?.map Entry.level := by simp
    have hrest := ih (by simp) hlevel hnext hn fun e' h' => hsound e' (by simp [h'])
    cases hlog with
    | done hok =>
      rcases hrest with ⟨⟨paths, rfl⟩, hlogs⟩ | ⟨init, last, e', s, rfl, hinit, he', rfl, hout⟩
      · refine .inl ⟨⟨path :: paths, rfl⟩, ?_⟩
        rw [List.flatten_cons]
        exact List.forall_mem_append.2 ⟨hok, hlogs⟩
      · refine .inr ⟨log :: init, last, e', s, rfl, ?_, he', rfl, ?_⟩
        · rw [List.flatten_cons]
          exact List.forall_mem_append.2 ⟨hok, hinit⟩
        · rw [List.length_cons, ← Nat.add_assoc, Nat.add_right_comm]
          exact hout

/-- However the calls of a run over a layout are answered, it comes to each entry so: where the way leads
down, it leads down once and into a directory that has been recorded; once it has arrived, the cursor is
as deep as the entry, within its records, and the name is not refused. So no run is stopped by a refusal. -/
theorem arrives_at_each_entry {strict : Bool} {text : Text} (h : Layout.parse strict text = .ok es)
    (o : Options) (root : Path) :
    (∀ earlier cursor e later, Reaches o root es earlier cursor (e :: later) →
      (∀ p ∈ earlier.getLast?, p.level < e.level →
        e.level = p.level + 1 ∧ cursor.below? = .ok (some (Plan.path root earlier.dropLast p))) ∧
      ∀ log c, Ends (arrive o earlier.length (earlier.getLast?.map Entry.level) e.level cursor).run
          log (.ok c) →
        c.depth = e.level ∧ 0 ≤ c.depth ∧ c.depth ≤ c.records.length ∧
          Path.compose c.root c.segments e.name = .ok (Plan.path root earlier e)) ∧
    ∀ log r, Ends (Build.entries o root es) log r →
      (∃ logs, Course o 0 none { root } es logs r ∧ log = logs.flatten ∧
        ∀ part ∈ logs, ∃ earlier cursor e later r, Reaches o root es earlier cursor (e :: later) ∧
          Ends (buildEntry o earlier.length (earlier.getLast?.map Entry.level) cursor e).run part r) ∧
      ∀ l, r = .error (.located l) → l.operation ≠ .resolve := by
  have hn := Layout.parse_nested h
  have hsound := Layout.parse_isSound h
  refine ⟨fun earlier cursor e later hr => ?_, fun log r hends => ?_⟩
  · have htracks := hr.tracks hn hsound
    have hes := hr.append_eq
    rw [List.append_cons] at hes
    rw [hes] at hn hsound
    exact ⟨fun p hp hlt => htracks.descends hn.append_left hp hlt,
      fun log c he => arrive_ends o htracks hn.append_left (hsound e (by simp)).name he⟩
  · obtain ⟨logs, hc, rfl⟩ := ends_buildFrom.1 hends
    refine ⟨⟨logs, hc, rfl, hc.reaches rfl rfl .start⟩, ?_⟩
    rintro l rfl
    rcases hc.outcome rfl rfl (.start root) hn hsound with ⟨⟨paths, hp⟩, -⟩ | ⟨_, _, _, s, -, -, -, hs, hout⟩
    · cases hp
    · cases hs
      cases hout with
      | located _ hop => exact hop

/-- Two levels down and back up in one go. -/
def climbingText : Text := "a/\n  b/\n    c\nd"

def climbingEntries : List Entry :=
  [{ name := "a", level := 0, line := 1, isDirectory := true },
    { name := "b", level := 1, line := 2, isDirectory := true },
    { name := "c", level := 2, line := 3 },
    { name := "d", level := 0, line := 4 }]

/-- A run comes to the last entry with the records of two directories that it then leaves behind. -/
theorem reaches_climbing :
    Reaches {} .here climbingEntries (climbingEntries.take 3)
      { root := .here, records := ["a", "b"], depth := 2 } (climbingEntries.drop 3) := by
  have h₀ : Reaches {} .here climbingEntries [] { root := .here } climbingEntries := .start
  have h₁ := h₀.next (.well (.done _))
  have h₂ := h₁.next (.well (.well (.done _)))
  exact h₂.next (.well (.well (.well (.done _))))

theorem arrives_after_climbing :
    Layout.parse false climbingText = .ok climbingEntries ∧
      ∃ log c, Ends (arrive {} 3 (some 2) 0 { root := .here, records := ["a", "b"], depth := 2 }).run
          log (.ok c) ∧
        c.depth = 0 ∧ c.records.length = 2 ∧ Path.compose c.root c.segments "d" = .ok (.ofText "d") := by
  have hparse : Layout.parse false climbingText = .ok climbingEntries := by cbv
  obtain ⟨hreached, -⟩ := arrives_at_each_entry hparse {} .here
  obtain ⟨-, harrive⟩ := hreached _ _ _ _ reaches_climbing
  have hends : Ends (arrive {} 3 (some 2) 0 { root := .here, records := ["a", "b"], depth := 2 }).run
      [(.visit (.ofText "a"), .ok ()), (.visit .here, .ok ())]
      (.ok { root := .here, records := ["a", "b"], depth := 0 }) := .well (.well (.done _))
  obtain ⟨hdepth, -, -, hcompose⟩ := harrive _ _ hends
  exact ⟨hparse, _, _, hends, hdepth, rfl, hcompose⟩

/-- Where the system alone makes calls fail, a run over a layout goes well, or it stops at the entry that
the first failure belongs to. The failure is then located there, unless a file could not be closed, or a
content is to be encoded in what no encoding can be called. -/
theorem located_unless_close_fails {strict : Bool} {text : Text} (h : Layout.parse strict text = .ok es)
    (o : Options) (root : Path) {log : List Exchange} {r : Except Stop (List Path)}
    (hr : Ends (Build.entries o root es) log r)
    (hsys : ∀ x ∈ log, ∀ f, x.2 = .error f → f.kind.isSystem = true) :
    ∃ logs, Course o 0 none { root } es logs r ∧ log = logs.flatten ∧
      ((∃ paths, r = .ok paths) ∧ (∀ x ∈ log, x.2 = .ok ()) ∨
        ∃ init last e, logs = init ++ [last] ∧ (∀ x ∈ init.flatten, x.2 = .ok ()) ∧
          es[init.length]? = some e ∧
          ((∃ l f, r = .error (.located l) ∧ l.index = init.length ∧ Arose o.encoding e last f ∧
              l.reason = f.reason ∧ Closed last) ∨
            (∃ path f, r = .error (.stray f) ∧ (Call.close path, .error f) ∈ last) ∨
            ∃ content f, r = .error (.stray f) ∧ f.kind.isSystem = false ∧ e.content = some content ∧
              encodeContent o.encoding content = .error f ∧ Closed last)) := by
  have hn := Layout.parse_nested h
  obtain ⟨logs, hc, rfl⟩ := ends_buildFrom.1 hr
  refine ⟨logs, hc, rfl, ?_⟩
  rcases hc.outcome rfl rfl (.start root) hn (Layout.parse_isSound h) with
    hok | ⟨init, last, e, s, rfl, hinit, he, rfl, hout⟩
  · exact .inl hok
  · refine .inr ⟨init, last, e, rfl, hinit, he, ?_⟩
    cases hout with
    | @located l f hindex _ hf hreason hclosed =>
      exact .inl ⟨l, f, rfl, hindex.trans (by simp), hf, hreason, hclosed⟩
    | @unclosed path f hm => exact .inr (.inl ⟨path, f, rfl, hm⟩)
    | @unexpected f hkind hf hclosed =>
      rcases hf with ⟨c, hm⟩ | ⟨content, hcontent, hcode⟩
      · have := hsys (c, .error f) (by simp [hm]) f rfl
        simp [hkind] at this
      · exact .inr (.inr ⟨content, f, rfl, hkind, hcontent, hcode, hclosed⟩)

/-- The system has no room for a file: neither to write nor to close it. -/
def full : Failure := .foreign (.system (some 28)) "No space left on device" "No space left on device"

/-- A file that can be neither written nor closed: the failure to write is located, that to close is
not, and only the latter is seen. -/
theorem stray_of_close_fails :
    Layout.parse false "a \"content\":\"x\"" = .ok [{ name := "a", level := 0, line := 1, content := some "x" }] ∧
      ∃ logs, Course {} 0 none { root := .here }
          [{ name := "a", level := 0, line := 1, content := some "x" }] logs (.error (.stray full)) ∧
        logs.flatten = [(.createFile (.ofText "a"), .ok ()), (.write (.ofText "a") [0x78], .error full),
          (.close (.ofText "a"), .error full)] := by
  have hparse : Layout.parse false "a \"content\":\"x\"" =
      .ok [{ name := "a", level := 0, line := 1, content := some "x" }] := by cbv
  have hends : Ends (Build.entries {} .here [{ name := "a", level := 0, line := 1, content := some "x" }])
      [(.createFile (.ofText "a"), .ok ()), (.write (.ofText "a") [0x78], .error full),
        (.close (.ofText "a"), .error full)] (.error (.stray full)) :=
    .well (.ask (.ask (.done _)))
  have hsys : ∀ x ∈ [(Call.createFile (.ofText "a"), (.ok () : Answer)),
      (.write (.ofText "a") [0x78], .error full), (.close (.ofText "a"), .error full)],
      ∀ f, x.2 = .error f → f.kind.isSystem = true := by
    intro x hx f hf
    simp only [List.mem_cons, List.not_mem_nil, or_false] at hx
    rcases hx with rfl | rfl | rfl
    · simp at hf
    · cases hf
      rfl
    · cases hf
      rfl
  obtain ⟨logs, hc, hlogs, -⟩ := located_unless_close_fails hparse {} .here hends hsys
  exact ⟨hparse, logs, hc, hlogs.symm⟩

end Build

end TreePlan
