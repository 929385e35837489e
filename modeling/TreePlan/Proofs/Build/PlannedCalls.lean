import Mathlib
import TreePlan.Proofs.Build.Arrival
import TreePlan.Proofs.Build.Steps

/-! A run takes the steps of its plan, and so makes the calls of its plan if no call fails. -/

namespace TreePlan

open Run (Ends)

/-- The calls of some exchanges that ask something of the file system. -/
def asked (log : List Exchange) : List Call := (log.map Prod.fst).filter Call.isPrimitive

namespace Plan

open Build (Step encodeContent)

/-- The steps that build an entry; content that can't be encoded fails where it would be written. -/
def nodeSteps (encoding : Text) (e : Entry) (path : Path) : List (Except Failure Call) :=
  if e.isDirectory then [.ok (.makeDirectory path e.mode)]
  else
    match e.target with
    | some target => [.ok (.link target path)]
    | none =>
      .ok (.createFile path) :: (e.content.toList.map fun c => (encodeContent encoding c).map (.write path))
        ++ e.mode.toList.map fun m => .ok (.setMode path m)

def entrySteps (root : Path) (encoding : Text) (earlier : List Entry) (e : Entry) : List Step :=
  ((moves root earlier e).map (fun p => Except.ok (Call.visit p)) ++ nodeSteps encoding e (path root earlier e)
    ++ (ownerCalls e (path root earlier e)).map Except.ok).map (Step.mk earlier.length)

def steps (root : Path) (encoding : Text) (es : List Entry) : List Step :=
  (each (entrySteps root encoding) es).flatten

end Plan

namespace Build

variable {root : Path} {earlier : List Entry} {cursor : Cursor} {e : Entry}

/-- The steps of some visits. -/
def visits (index : Nat) (paths : List Path) : List Step :=
  paths.map fun p => ⟨index, .ok (.visit p)⟩

theorem entrySteps_eq (root : Path) (encoding : Text) (earlier : List Entry) (e : Entry) :
    Plan.entrySteps root encoding earlier e =
      visits earlier.length (Plan.moves root earlier e) ++
        ((Plan.nodeSteps encoding e (Plan.path root earlier e)).map (Step.mk earlier.length) ++
          ((Plan.ownerCalls e (Plan.path root earlier e)).map Except.ok).map (Step.mk earlier.length)) := by
  simp [Plan.entrySteps, visits]

theorem takes_walk (o : Options) (down : Bool) (index : Nat) (paths : List Path) :
    Takes (walk o down index paths) (visits index paths) () := by
  induction paths with
  | nil => exact takes_pure ()
  | cons p paths ih => exact (takes_attempt o (moving down index p) rfl).bind ih

variable {o : Options}

theorem takes_buildFile (o : Options) (index : Nat) (e : Entry) (path : Path) :
    Takes (buildFile o index e path)
      (⟨index, .ok (.createFile path)⟩ :: (e.content.toList.map fun c =>
          ⟨index, (encodeContent o.encoding c).map (.write path)⟩)
        ++ e.mode.toList.map fun m => ⟨index, .ok (.setMode path m)⟩) () := by
  unfold buildFile
  dsimp only
  rw [← bind_assoc, List.cons_append, ← List.singleton_append]
  refine (takes_settled o _ false rfl).bind ((takes_closing path ?_).bind ?_)
  · rw [← List.nil_append (List.map _ _)]
    apply (takes_tell o _ none).bind
    cases e.content with
    | none => exact takes_pure ()
    | some content =>
      dsimp only [Option.toList, List.map]
      unfold writeContent
      cases encodeContent o.encoding content with
      | error f => exact takes_settle_error o _ true f
      | ok bytes => exact takes_attempt o _ rfl
  · cases e.mode with
    | none => exact takes_pure ()
    | some mode => exact takes_attempt o _ rfl

theorem takes_buildNode (o : Options) (index : Nat) (e : Entry) (path : Path) :
    Takes (buildNode o index e path) ((Plan.nodeSteps o.encoding e path).map (Step.mk index)) () := by
  unfold buildNode Plan.nodeSteps
  split
  · exact takes_attempt o _ rfl
  · cases e.target with
    | some target => exact takes_attempt o _ rfl
    | none =>
      have hfile := takes_buildFile o index e path
      simpa [Function.comp_def] using hfile

theorem takes_setOwner (o : Options) (index : Nat) (e : Entry) (path : Path) :
    Takes (setOwner o index e path)
      (((Plan.ownerCalls e path).map Except.ok).map (Step.mk index)) () := by
  unfold setOwner Plan.ownerCalls
  split
  · exact takes_attempt o _ rfl
  · exact takes_pure ()

theorem takes_planned (o : Options) (root : Path) (earlier : List Entry) (e : Entry) :
    Takes (planned o root earlier e) (Plan.entrySteps root o.encoding earlier e) () := by
  rw [entrySteps_eq]
  unfold planned
  apply (takes_walk o _ _ _).bind
  apply (takes_buildNode o _ e _).bind
  exact takes_setOwner o _ e _

theorem takes_buildEntry (o : Options) (h : cursor.Tracks root earlier)
    (hn : Layout.Nested (earlier ++ [e])) (hname : IsName e.name) :
    ∃ next, next.Tracks root (earlier ++ [e]) ∧
      Takes (buildEntry o earlier.length (earlier.getLast?.map Entry.level) cursor e)
        (Plan.entrySteps root o.encoding earlier e) (Plan.path root earlier e, next) := by
  obtain ⟨next, hnext, heq⟩ := buildEntry_eq o h hn hname
  refine ⟨next, hnext, ?_⟩
  rw [heq, ← List.append_nil (Plan.entrySteps root o.encoding earlier e)]
  exact (takes_planned o root earlier e).bind (takes_pure _)

theorem takes_buildFrom (o : Options) {es : List Entry} (h : cursor.Tracks root earlier)
    (hn : Layout.Nested (earlier ++ es)) (hsound : ∀ e ∈ es, e.IsSound) :
    Takes (buildFrom o earlier.length (earlier.getLast?.map Entry.level) cursor es)
      (Plan.eachFrom (Plan.entrySteps root o.encoding) earlier es).flatten
      (Plan.eachFrom (Plan.path root) earlier es) := by
  induction es generalizing earlier cursor with
  | nil => exact takes_pure []
  | cons e rest ih =>
    rw [List.append_cons] at hn
    obtain ⟨next, hnext, hentry⟩ := takes_buildEntry o h hn.append_left (hsound e (by simp)).name
    have hrest := ih hnext hn fun e' h' => hsound e' (by simp [h'])
    rw [List.getLast?_concat, List.length_append, List.length_singleton] at hrest
    rw [buildFrom, Plan.eachFrom, Plan.eachFrom, List.flatten_cons]
    apply hentry.bind
    rw [← List.append_nil (List.flatten _)]
    exact hrest.bind (takes_pure _)

theorem takes_entries (o : Options) (root : Path) {es : List Entry} (hn : Layout.Nested es)
    (hsound : ∀ e ∈ es, e.IsSound) :
    Takes (ExceptT.mk (Build.entries o root es)) (Plan.steps root o.encoding es)
      (Plan.paths root es) :=
  takes_buildFrom o (Cursor.Tracks.start root) hn hsound

/-- The contents that a run writes can be encoded, and this is how. -/
def Encodes (encoding : Text) (encode : Text → Bytes) (e : Entry) : Prop :=
  e.isDirectory = false → e.target = none →
    ∀ content, e.content = some content → encodeContent encoding content = .ok (encode content)

variable {encoding : Text} {encode : Text → Bytes}

theorem map_call_entrySteps (root : Path) (he : Encodes encoding encode e) :
    (Plan.entrySteps root encoding earlier e).map Step.call =
      (Plan.entryCalls root encode earlier e).map Except.ok := by
  have hnode : Plan.nodeSteps encoding e (Plan.path root earlier e) =
      (Plan.nodeCalls encode e (Plan.path root earlier e)).map Except.ok := by
    unfold Plan.nodeSteps Plan.nodeCalls
    split
    · rfl
    · next hd =>
      cases ht : e.target with
      | some target => rfl
      | none =>
        cases hc : e.content with
        | none => simp
        | some content => simp [he (by simpa using hd) ht content hc, Except.map]
  simp [Plan.entrySteps, Plan.entryCalls, hnode, Function.comp_def]

theorem map_call_steps (root : Path) {es : List Entry} (he : ∀ e ∈ es, Encodes encoding encode e) :
    (Plan.steps root encoding es).map Step.call = (Plan.calls root encode es).map Except.ok := by
  induction es using List.reverseRecOn with
  | nil => rfl
  | append_singleton es e ih =>
    have ih := ih fun e' h' => he e' (by simp [h'])
    rw [Plan.steps, Plan.calls, Plan.each_append_singleton, Plan.each_append_singleton,
      List.flatten_append, List.flatten_append, List.map_append, List.map_append, ← Plan.steps,
      ← Plan.calls, ih]
    simp [map_call_entrySteps root (he e (by simp))]

theorem asked_eq_heard (log : List Exchange) : asked log = (heard log).map Prod.fst := by
  rw [asked, heard, List.filter_map]
  rfl

/-- Under every script under which nothing fails, building a layout makes just the calls of its plan. Of
the plan: each entry has open directories at all levels above its own, the way to it takes one visit for
each level between it and the entry before, and where it is made is where the visits have led. -/
theorem calls_eq_plan {strict : Bool} {text : Text} {es : List Entry}
    (h : Layout.parse strict text = .ok es) (o : Options) (root : Path) {encode : Text → Bytes}
    (he : ∀ e ∈ es, Encodes o.encoding encode e) {script : Script}
    (hs : ∀ x ∈ ((Build.entries o root es).play script).2, x.2 = .ok ()) :
    ((Build.entries o root es).play script).1 = .ok (Plan.paths root es) ∧
      asked ((Build.entries o root es).play script).2 = Plan.calls root encode es ∧
      ∀ (earlier : List Entry) (e : Entry) (later : List Entry), es = earlier ++ e :: later →
        0 ≤ e.level ∧ Plan.Open earlier e.level.toNat ∧
          (∀ p ∈ earlier.getLast?,
            (Plan.moves root earlier e).length = (e.level - p.level).natAbs) ∧
          (Plan.moved root (earlier ++ [e])).getLast?.getD root =
            (Plan.path root earlier e).parent := by
  have hn := Layout.parse_nested h
  have hends := Run.ends_play script (Build.entries o root es)
  obtain ⟨out, hsteps, hr⟩ := takes_entries o root hn (Layout.parse_isSound h) _ _ hends
    fun x hx _ => hs x hx
  have hcalls := map_call_steps root he
  have hout : out = none := hsteps.smooth (fun x hx => hs x (List.mem_of_mem_filter hx))
    fun step hm => by
      obtain ⟨c, -, hc⟩ := List.mem_map.1 (hcalls ▸ List.mem_map_of_mem hm)
      exact ⟨c, hc.symm⟩
  subst hout
  have hasked : asked ((Build.entries o root es).play script).2 = Plan.calls root encode es := by
    have := hcalls.symm.trans hsteps.map_fst
    rw [asked_eq_heard]
    exact (List.map_injective_iff.2 (fun _ _ => Except.ok.inj) (by simpa [Function.comp_def] using this)).symm
  refine ⟨hr, hasked, ?_⟩
  rintro earlier e later rfl
  have hn' : Layout.Nested (earlier ++ [e]) := by
    rw [List.append_cons] at hn
    exact hn.append_left
  exact ⟨hn'.level_nonneg, Plan.open_of_nested hn', fun p hp => Plan.length_moves root hn' hp,
    Plan.moved_getLast root hn'⟩

/-- Two levels down, a symlink that takes no content, and back up in two visits. -/
def deepText : Text :=
  "a/(750)\n  b/\n    c(root,,640) \"content\":\"x\"\n    l -> ../t \"content\":\"y\"\nd"

def deepEntries : List Entry :=
  [{ name := "a", level := 0, line := 1, isDirectory := true, mode := some 0o750
     modeText := some "750" },
    { name := "b", level := 1, line := 2, isDirectory := true },
    { name := "c", level := 2, line := 3, mode := some 0o640, modeText := some "640"
      owner := some "root", content := some "x" },
    { name := "l", level := 2, line := 4, target := some "../t", content := some "y" },
    { name := "d", level := 0, line := 5 }]

theorem calls_of_deepText :
    Layout.parse false deepText = .ok deepEntries ∧
      (∀ e ∈ deepEntries, Encodes "utf-8" Utf8.encodeName e) ∧
      (∀ x ∈ ((Build.entries {} .here deepEntries).play .smooth).2, x.2 = .ok ()) ∧
      asked ((Build.entries {} .here deepEntries).play .smooth).2 =
        [.makeDirectory (.ofText "a") (some 0o750), .visit (.ofText "a"),
          .makeDirectory (.ofText "a/b") none, .visit (.ofText "a/b"),
          .createFile (.ofText "a/b/c"), .write (.ofText "a/b/c") [0x78],
          .setMode (.ofText "a/b/c") 0o640, .setOwner (.ofText "a/b/c") (some "root") none true,
          .link "../t" (.ofText "a/b/l"), .visit (.ofText "a"), .visit .here,
          .createFile (.ofText "d")] := by
  have hparse : Layout.parse false deepText = .ok deepEntries := by cbv
  have hencodes : ∀ e ∈ deepEntries, Encodes "utf-8" Utf8.encodeName e := by
    intro e he hd ht content hc
    simp only [deepEntries, List.mem_cons, List.not_mem_nil, or_false] at he
    rcases he with rfl | rfl | rfl | rfl | rfl
    · simp at hd
    · simp at hd
    · cases hc
      cbv
    · simp at ht
    · simp at hc
  have hok := Run.play_smooth_ok (Build.entries {} .here deepEntries)
  refine ⟨hparse, hencodes, hok, ?_⟩
  rw [(calls_eq_plan hparse {} .here hencodes hok).2.1]
  cbv

end Build

end TreePlan
