import TreePlan.Proofs.Account.Resolution
import TreePlan.Proofs.FileSystem.Misuse
import TreePlan.Proofs.Layout.Creation

/-! When building a layout ends in a failure and not in a status: for an integer in the layout that is too
long, for a place that can't be looked at, or for a call that is misused. -/

namespace TreePlan

open Utf8 (encodeName)

open FileSystem (precheck effect)

namespace Build

/-- What a step is checked for before the file system is looked at. -/
def Step.check (step : Step) : Except Failure Unit := step.call >>= precheck

variable {steps : List Step} {fs gs hs : FileSystem} {out out' : Option Stop} {f : Failure}

theorem stops_stray_iff {index : Nat} {f' : Failure} :
    Stops index f' (.stray f) ↔ f' = f ∧ f.isExpected = false := by
  refine ⟨?_, ?_⟩
  · intro h
    cases h with
    | stray hf => exact ⟨rfl, hf⟩
  · intro h
    obtain ⟨rfl, hf⟩ := h
    exact .stray hf

/-- Steps come to a failure that is not reported just where a step is checked and found wanting after all
steps before it have been carried out. -/
theorem carriedOut_stray_iff : CarriedOut steps fs (some (.stray f)) gs ↔
    f.isExpected = false ∧ ∃ pre step post, steps = pre ++ step :: post ∧
      CarriedOut pre fs none gs ∧ step.check = .error f := by
  refine ⟨?_, ?_⟩
  · intro h
    induction steps generalizing fs with
    | nil => cases (carriedOut_nil.1 h).1
    | cons step steps ih =>
      obtain ⟨index, call⟩ := step
      cases call with
      | error f' =>
        obtain ⟨s, hs, hout, rfl⟩ := carriedOut_cons_error.1 h
        cases hout
        obtain ⟨rfl, hf⟩ := stops_stray_iff.1 hs
        exact ⟨hf, [], _, steps, rfl, carriedOut_nil.2 ⟨rfl, rfl⟩, rfl⟩
      | ok c =>
        rcases carriedOut_cons.1 h with ⟨ms, he, hrest⟩ | ⟨f', s, he, hs, hout, rfl⟩
        · obtain ⟨hf, pre, step, post, rfl, hpre, hcheck⟩ := ih hrest
          exact ⟨hf, _ :: pre, step, post, rfl, carriedOut_cons.2 (.inl ⟨ms, he, hpre⟩), hcheck⟩
        · cases hout
          obtain ⟨rfl, hf⟩ := stops_stray_iff.1 hs
          refine ⟨hf, [], _, steps, rfl, carriedOut_nil.2 ⟨rfl, rfl⟩, ?_⟩
          exact (FileSystem.effect_unexpected_iff hf).1 he
  · rintro ⟨hf, pre, ⟨index, call⟩, post, rfl, hpre, hcheck⟩
    refine carriedOut_append.2 (.inr ⟨gs, hpre, ?_⟩)
    cases call with
    | error f' =>
      cases hcheck
      exact carriedOut_cons_error.2 ⟨_, .stray hf, rfl, rfl⟩
    | ok c =>
      have he : effect c gs = .error f := (FileSystem.effect_unexpected_iff hf).2 hcheck
      exact carriedOut_cons.2 (.inr ⟨f, _, he, .stray hf, rfl, rfl⟩)

/-- There is one way to carry out steps, but for how a report reads. -/
theorem CarriedOut.unique (h : CarriedOut steps fs out gs) (h' : CarriedOut steps fs out' hs) :
    hs = gs ∧ (out = none ↔ out' = none) ∧ ∀ f, out = some (.stray f) ↔ out' = some (.stray f) := by
  have hstops {index : Nat} {f : Failure} {s s' : Stop} (hs : Stops index f s)
      (hs' : Stops index f s') (f' : Failure) : s = .stray f' ↔ s' = .stray f' := by
    refine ⟨?_, ?_⟩
    · rintro rfl
      obtain ⟨rfl, hf⟩ := stops_stray_iff.1 hs
      cases hs' with
      | located he => rw [hf] at he; cases he
      | stray => rfl
    · rintro rfl
      obtain ⟨rfl, hf⟩ := stops_stray_iff.1 hs'
      cases hs with
      | located he => rw [hf] at he; cases he
      | stray => rfl
  induction steps generalizing fs with
  | nil =>
    obtain ⟨rfl, rfl⟩ := carriedOut_nil.1 h
    obtain ⟨rfl, rfl⟩ := carriedOut_nil.1 h'
    simp
  | cons step steps ih =>
    obtain ⟨index, call⟩ := step
    cases call with
    | error f =>
      obtain ⟨s, hs, rfl, rfl⟩ := carriedOut_cons_error.1 h
      obtain ⟨s', hs', rfl, rfl⟩ := carriedOut_cons_error.1 h'
      simp [hstops hs hs']
    | ok c =>
      rcases carriedOut_cons.1 h with ⟨ms, he, hrest⟩ | ⟨f, s, he, hs, rfl, rfl⟩
      · rcases carriedOut_cons.1 h' with ⟨ms', he', hrest'⟩ | ⟨f', s', he', -, -, -⟩
        · rw [he] at he'
          cases he'
          exact ih hrest hrest'
        · rw [he] at he'
          simp at he'
      · rcases carriedOut_cons.1 h' with ⟨ms', he', hrest'⟩ | ⟨f', s', he', hs', rfl, rfl⟩
        · rw [he] at he'
          simp at he'
        · rw [he] at he'
          cases he'
          simp [hstops hs hs']

/-- Failures that an entry of a layout can be misused by: a null character in what goes to the system, or an
owner whose number can't be read or is out of range. -/
def OfMisuse (f : Failure) : Prop :=
  f = .nullByte ∨ (∃ token fault, f = .numeral token fault) ∨
    ∃ kind, f = .idTooLarge kind ∨ f = .idTooSmall kind

theorem ofMisuse_of_systemBytes {t : Text} (h : systemBytes t = .error f) (hf : f.isExpected = false) :
    OfMisuse f := by
  unfold systemBytes at h
  split at h
  · cases h
    cases hf
  · split at h
    · cases h
      exact .inl rfl
    · simp at h

theorem ofMisuse_of_resolve {kind : AccountKind} {token : Option Text}
    (h : Account.resolve kind token = .error f) (hf : f.isExpected = false) : OfMisuse f := by
  cases token with
  | none => cases h
  | some token =>
    rcases Account.resolveIn_eq_error_iff.1 h with ⟨-, rfl⟩ | hdefect
    · cases hf
    · cases hdefect with
      | long | undenoting => exact .inr (.inl ⟨token, _, rfl⟩)
      | lone => cases hf
      | null => exact .inl rfl

theorem ofMisuse_of_checked {kind : AccountKind} {id : Int} (h : Account.checked kind id = .error f) :
    OfMisuse f := by
  rcases Account.checked_eq_error_iff.1 h with ⟨-, rfl⟩ | ⟨-, rfl⟩
  · exact .inr (.inr ⟨kind, .inl rfl⟩)
  · exact .inr (.inr ⟨kind, .inr rfl⟩)

theorem checkMode_of_sound {m : Int} (h0 : 0 ≤ m) (h1 : m < 4096) :
    FileSystem.checkMode m ≠ .error f := by
  unfold FileSystem.checkMode FileSystem.modeLimit
  rw [if_neg (by omega)]
  exact nofun

/-- What a check in two parts fails by, one of the parts fails by. -/
theorem ofMisuse_bind {α β : Type} {x : Except Failure α} {k : α → Except Failure β}
    (h : x >>= k = .error f) (hx : x = .error f → OfMisuse f)
    (hk : ∀ a, k a = .error f → OfMisuse f) : OfMisuse f := by
  rcases bind_eq_error_iff.1 h with he | ⟨a, -, he⟩
  · exact hx he
  · exact hk a he

theorem expected_of_encodeContent {content : Text} (h : encodeContent "utf-8" content = .error f) :
    f.isExpected = true := by
  have hcharset : Charset.lookup "utf-8" = .ok .utf8 := by cbv
  unfold encodeContent at h
  rw [hcharset] at h
  rcases bind_eq_error_iff.1 h with he | ⟨charset, -, he⟩
  · cases he
  · cases hb : charset.encode content with
    | error fault =>
      rw [hb] at he
      cases he
      rfl
    | ok bytes =>
      rw [hb] at he
      cases he

theorem ofMisuse_of_ownerCalls {e : Entry} {p : Path} {c : Call} (hc : c ∈ Plan.ownerCalls e p)
    (h : precheck c = .error f) (hf : f.isExpected = false) : OfMisuse f := by
  unfold Plan.ownerCalls at hc
  split at hc
  · obtain rfl := List.mem_singleton.1 hc
    refine ofMisuse_bind h (fun ho => ofMisuse_of_resolve ho hf) fun owner h => ?_
    refine ofMisuse_bind h (fun hg => ofMisuse_of_resolve hg hf) fun group h => ?_
    refine ofMisuse_bind h (fun hb => ofMisuse_of_systemBytes hb hf) fun _ h => ?_
    refine ofMisuse_bind h ofMisuse_of_checked fun _ h => ?_
    exact ofMisuse_bind h ofMisuse_of_checked nofun
  · simp at hc

theorem expected_of_nodeSteps {e : Entry} {p : Path}
    (h : Except.error f ∈ Plan.nodeSteps "utf-8" e p) : f.isExpected = true := by
  unfold Plan.nodeSteps at h
  split at h
  · cases List.mem_singleton.1 h
  · split at h
    · cases List.mem_singleton.1 h
    · rcases List.mem_append.1 h with h | h
      · rcases List.mem_cons.1 h with h | h
        · simp at h
        · obtain ⟨content, -, hc⟩ := List.mem_map.1 h
          cases hb : encodeContent "utf-8" content with
          | error f' =>
            rw [hb] at hc
            cases hc
            exact expected_of_encodeContent hb
          | ok bytes =>
            rw [hb] at hc
            cases hc
      · obtain ⟨m, -, hm⟩ := List.mem_map.1 h
        simp at hm

/-- The mode of a sound entry can be passed on: a node is misused only by a null character in its path or
its target. -/
theorem ofMisuse_of_nodeSteps {e : Entry} {p : Path} {c : Call} (he : e.IsSound)
    (hc : Except.ok c ∈ Plan.nodeSteps "utf-8" e p) (h : precheck c = .error f)
    (hf : f.isExpected = false) : OfMisuse f := by
  have hbytes {t : Text} (hb : systemBytes t = .error f) : OfMisuse f := ofMisuse_of_systemBytes hb hf
  unfold Plan.nodeSteps at hc
  split at hc
  · cases List.mem_singleton.1 hc
    refine ofMisuse_bind h hbytes fun _ h => ofMisuse_bind h (fun hm => absurd hm ?_) nofun
    cases hm : e.mode with
    | none => exact checkMode_of_sound (by decide) (by decide)
    | some m => exact checkMode_of_sound (he.mode m hm).1 (he.mode m hm).2
  · split at hc
    · cases List.mem_singleton.1 hc
      exact ofMisuse_bind h hbytes fun _ h => ofMisuse_bind h hbytes nofun
    · rcases List.mem_append.1 hc with hc | hc
      · rcases List.mem_cons.1 hc with hc | hc
        · cases hc
          exact ofMisuse_bind h hbytes nofun
        · obtain ⟨content, -, hc⟩ := List.mem_map.1 hc
          obtain ⟨bytes, -, rfl⟩ := map_eq_ok_iff.1 hc
          exact ofMisuse_bind h hbytes nofun
      · obtain ⟨m, hm, hc⟩ := List.mem_map.1 hc
        cases hc
        have hm := he.mode m (Option.mem_toList.1 hm)
        refine ofMisuse_bind h hbytes fun _ h => ?_
        exact ofMisuse_bind h (fun hc => absurd hc (checkMode_of_sound hm.1 hm.2)) nofun

theorem ofMisuse_of_check {root : Path} {es : List Entry} {step : Step} (hes : ∀ e ∈ es, e.IsSound)
    (hstep : step ∈ Plan.steps root "utf-8" es) (h : step.check = .error f)
    (hf : f.isExpected = false) : OfMisuse f := by
  obtain ⟨part, hpart, hstep⟩ := List.mem_flatten.1 hstep
  obtain ⟨earlier, e, later, rfl, rfl⟩ := Plan.mem_each.1 hpart
  have he : e.IsSound := hes e (by simp)
  obtain ⟨x, hx, rfl⟩ := List.mem_map.1 hstep
  rcases List.mem_append.1 hx with hx | hx
  · rcases List.mem_append.1 hx with hx | hx
    · obtain ⟨p, -, rfl⟩ := List.mem_map.1 hx
      cases h
    · cases x with
      | error f' =>
        cases h
        rw [expected_of_nodeSteps hx] at hf
        simp at hf
      | ok c => exact ofMisuse_of_nodeSteps he hx h hf
  · obtain ⟨c, hc, rfl⟩ := List.mem_map.1 hx
    exact ofMisuse_of_ownerCalls hc h hf

end Build

namespace FileSystem

/-- The place to build in can't be looked at: the working directory has been removed, or the system fails
on the path for another reason than that there is nothing. -/
def PlaceFails (fs : FileSystem) (place : Option Text) (f : Failure) : Prop :=
  match place with
  | none => fs.node? fs.workingDirectory = none ∧ f = .system .notFound
  | some t => t ≠ [] ∧ ∃ fault, f = .system fault ∧ fault.isAbsence = false ∧
      fs.find .followed (Path.ofText t).toText = .error f

theorem checkPlace_eq_failed_iff {fs : FileSystem} {place : Option Text} {f : Failure} :
    fs.checkPlace place = .error (.failed f) ↔ fs.PlaceFails place f := by
  unfold checkPlace PlaceFails
  cases place with
  | none =>
    dsimp only
    cases fs.node? fs.workingDirectory <;> simp [eq_comm]
  | some t =>
    dsimp only
    rw [← look?_eq_error_iff, ← map_look?_eq_error_iff (g := fun n => n.any Node.isDirectory)]
    show _ ↔ t ≠ [] ∧ fs.isDirectory (Path.ofText t).toText = .error f
    by_cases ht : t = []
    · simp [ht]
    · rw [if_neg (by simpa using ht)]
      cases fs.isDirectory (Path.ofText t).toText with
      | error f' => simp [ht]
      | ok b => cases b <;> simp

end FileSystem

namespace Layout

open Build

variable {fs gs : FileSystem}

theorem report_eq_error_iff {out : Option Stop} {paths : List Path} {f : Failure} :
    report (out.elim (.ok paths) .error) = .error f ↔ out = some (.stray f) := by
  cases out with
  | none => exact ⟨nofun, nofun⟩
  | some s =>
    cases s with
    | located l => exact ⟨nofun, nofun⟩
    | stray f' =>
      refine ⟨?_, ?_⟩
      · rintro ⟨⟩
        rfl
      · rintro ⟨⟩
        rfl

theorem report_ok_iff {out : Option Stop} {paths : List Path} :
    (∃ status, report (out.elim (.ok paths) .error) = .ok status ∧ status.ok = true) ↔ out = none := by
  cases out with
  | none => exact ⟨fun _ => rfl, fun _ => ⟨_, rfl, rfl⟩⟩
  | some s =>
    refine ⟨fun ⟨status, h, hok⟩ => ?_, nofun⟩
    cases s with
    | located l =>
      cases h
      cases hok
    | stray f => cases h

/-- The run of the entries, by the steps of their plan. -/
theorem create_run_steps (now : Text) (input : Bytes) {layout : Text} {place : Option Text}
    {es : List Entry} (hp : parse false layout = .ok es) (hc : fs.checkPlace place = .ok ()) :
    ∃ out gs, CarriedOut (Plan.steps (fs.placePath place) "utf-8" es) fs out gs ∧
      (create (FileSystem.host now input) layout place none none).run fs =
        (report (out.elim (.ok (Plan.paths (fs.placePath place) es)) .error), gs) := by
  obtain ⟨r, gs, hr⟩ : ∃ r gs, (Build.entries {} (fs.placePath place) es).perform
      FileSystem.answer fs = (r, gs) := ⟨_, _, rfl⟩
  obtain ⟨out, hsteps, rfl⟩ := entries_carriedOut (parse_nested hp) (parse_isSound hp) hr
  refine ⟨out, gs, hsteps, ?_⟩
  rw [create_run, hp, hc]
  dsimp only
  rw [hr]

variable {now layout : Text} {input : Bytes} {place : Option Text} {f : Failure}

/-- Why building a layout ends in a failure. -/
def Escapes (fs : FileSystem) (layout : Text) (place : Option Text) (f : Failure) (gs : FileSystem) :
    Prop :=
  (∃ fault, parse false layout = .error (.oversized fault) ∧ f = .oversized fault ∧ gs = fs) ∨
    ∃ es, parse false layout = .ok es ∧
      ((fs.PlaceFails place f ∧ gs = fs) ∨
        fs.checkPlace place = .ok () ∧ f.isExpected = false ∧ ∃ pre step post,
          Plan.steps (fs.placePath place) "utf-8" es = pre ++ step :: post ∧
            CarriedOut pre fs none gs ∧ step.check = .error f)

/-- Nothing else escapes than integers that are too long, failures of the system at the place, and the
failures of misuse. -/
theorem Escapes.kind (h : Escapes fs layout place f gs) :
    (∃ fault, f = .oversized fault) ∨ FileSystem.OfSystem f ∨ OfMisuse f := by
  rcases h with ⟨fault, -, rfl, -⟩ | ⟨es, hp, ⟨hplace, -⟩ | ⟨-, hf, pre, step, post, heq, -, hcheck⟩⟩
  · exact .inl ⟨fault, rfl⟩
  · refine .inr (.inl ?_)
    cases place with
    | none => exact ⟨_, hplace.2⟩
    | some t =>
      obtain ⟨-, fault, hfault, -⟩ := hplace
      exact ⟨fault, hfault⟩
  · have hstep : step ∈ Plan.steps (fs.placePath place) "utf-8" es := by
      rw [heq]
      simp
    exact .inr (.inr (ofMisuse_of_check (parse_isSound hp) hstep hcheck hf))

theorem create_eq_error_iff :
    (create (FileSystem.host now input) layout place none none).run fs = (.error f, gs) ↔
      Escapes fs layout place f gs := by
  unfold Escapes
  cases hp : parse false layout with
  | error e =>
    rw [create_run, hp]
    cases e with
    | oversized fault =>
      refine ⟨?_, ?_⟩
      · rintro ⟨⟩
        exact .inl ⟨fault, rfl, rfl, rfl⟩
      · rintro (⟨_, ⟨⟩, rfl, rfl⟩ | ⟨_, ⟨⟩, -⟩)
        rfl
    | invalid e =>
      refine ⟨?_, ?_⟩
      · rintro ⟨⟩
      · rintro (⟨_, ⟨⟩, -⟩ | ⟨_, ⟨⟩, -⟩)
  | ok es =>
    rw [← FileSystem.checkPlace_eq_failed_iff]
    cases hc : fs.checkPlace place with
    | error r =>
      rw [create_run, hp, hc]
      cases r with
      | refused r =>
        refine ⟨?_, ?_⟩
        · rintro ⟨⟩
        · rintro (⟨_, ⟨⟩, -⟩ | ⟨_, ⟨⟩, ⟨⟨⟩, -⟩ | ⟨⟨⟩, -⟩⟩)
      | failed f' =>
        refine ⟨?_, ?_⟩
        · rintro ⟨⟩
          exact .inr ⟨es, rfl, .inl ⟨rfl, rfl⟩⟩
        · intro h
          rcases h with ⟨_, ⟨⟩, -⟩ | ⟨_, ⟨⟩, ⟨⟨⟩, rfl⟩ | ⟨⟨⟩, -⟩⟩
          rfl
    | ok u =>
      obtain ⟨out, hs, hsteps, hrun⟩ := create_run_steps now input hp hc
      rw [hrun]
      refine ⟨?_, ?_⟩
      · intro h
        obtain ⟨hreport, rfl⟩ := Prod.mk.inj h
        rw [report_eq_error_iff.1 hreport] at hsteps
        exact .inr ⟨es, rfl, .inr ⟨rfl, carriedOut_stray_iff.1 hsteps⟩⟩
      · intro h
        rcases h with ⟨_, ⟨⟩, -⟩ | ⟨_, ⟨⟩, ⟨⟨⟩, -⟩ | ⟨-, hstray⟩⟩
        obtain ⟨rfl, -, hout⟩ := hsteps.unique (carriedOut_stray_iff.2 hstray)
        rw [report_eq_error_iff.2 ((hout f).2 rfl)]

theorem create_ok_iff :
    (∃ status, (create (FileSystem.host now input) layout place none none).run fs = (.ok status, gs) ∧
        status.ok = true) ↔
      ∃ es, parse false layout = .ok es ∧ fs.checkPlace place = .ok () ∧
        CarriedOut (Plan.steps (fs.placePath place) "utf-8" es) fs none gs := by
  cases hp : parse false layout with
  | error e =>
    rw [create_run, hp]
    cases e with
    | oversized fault =>
      refine ⟨?_, ?_⟩
      · intro h
        obtain ⟨_, ⟨⟩, -⟩ := h
      · intro h
        obtain ⟨_, ⟨⟩, -⟩ := h
    | invalid e =>
      refine ⟨?_, ?_⟩
      · intro h
        obtain ⟨_, ⟨⟩, ⟨⟩⟩ := h
      · intro h
        obtain ⟨_, ⟨⟩, -⟩ := h
  | ok es =>
    cases hc : fs.checkPlace place with
    | error r =>
      rw [create_run, hp, hc]
      cases r with
      | refused r =>
        refine ⟨?_, ?_⟩
        · intro h
          obtain ⟨_, ⟨⟩, ⟨⟩⟩ := h
        · intro h
          obtain ⟨_, -, ⟨⟩, -⟩ := h
      | failed f' =>
        refine ⟨?_, ?_⟩
        · intro h
          obtain ⟨_, ⟨⟩, -⟩ := h
        · intro h
          obtain ⟨_, -, ⟨⟩, -⟩ := h
    | ok u =>
      obtain ⟨out, hs, hsteps, hrun⟩ := create_run_steps now input hp hc
      rw [hrun]
      refine ⟨?_, ?_⟩
      · intro h
        obtain ⟨status, h, hok⟩ := h
        obtain ⟨hreport, rfl⟩ := Prod.mk.inj h
        rw [report_ok_iff.1 ⟨status, hreport, hok⟩] at hsteps
        exact ⟨es, rfl, rfl, hsteps⟩
      · intro h
        obtain ⟨_, ⟨⟩, -, hall⟩ := h
        obtain ⟨rfl, hout, -⟩ := hsteps.unique hall
        obtain ⟨status, hreport, hok⟩ := report_ok_iff.2 (hout.2 rfl)
        exact ⟨status, by rw [hreport], hok⟩

/-- Building a layout ends in a failure in three cases only: an integer of the layout is too long, the
place can't be looked at, or a step is reached that is misused, by a null character or by the number of an
owner. In every other case it ends in a status, which is ok just when all steps of the plan have been
carried out. -/
theorem create_outcome (now : Text) (input : Bytes) (layout : Text) (place : Option Text)
    (fs gs : FileSystem) :
    (∀ f, (create (FileSystem.host now input) layout place none none).run fs = (.error f, gs) ↔
        Escapes fs layout place f gs) ∧
      (∀ f, Escapes fs layout place f gs →
        (∃ fault, f = .oversized fault) ∨ FileSystem.OfSystem f ∨ OfMisuse f) ∧
      ((∃ status, (create (FileSystem.host now input) layout place none none).run fs =
          (.ok status, gs) ∧ status.ok = true) ↔
        ∃ es, parse false layout = .ok es ∧ fs.checkPlace place = .ok () ∧
          CarriedOut (Plan.steps (fs.placePath place) "utf-8" es) fs none gs) :=
  ⟨fun _ => create_eq_error_iff, fun _ => Escapes.kind, create_ok_iff⟩

/-- A name may be spelled with a null character, but no call with it in a path is reported. -/
def nullLayout : Text := "a\n\"b\\u0000\""

theorem create_outcome_null :
    (create (FileSystem.host [] []) nullLayout (some "/www") none none).run site =
      (.error .nullByte, (FileSystem.put site [encodeName "srv", encodeName "a"]
        ⟨.file [], 0o644, 0, 0⟩)) := by
  have hp : parse false nullLayout = .ok
      [{ name := "a", level := 0, line := 1 },
        { name := CodePoint.ofChar 'b' :: [CodePoint.null], level := 0, line := 2 }] := by
    cbv
  refine ((create_outcome [] [] nullLayout (some "/www") site _).1 _).2 (.inr ⟨_, hp, .inr ?_⟩)
  refine ⟨by cbv, rfl, [⟨0, .ok (.createFile (.ofText "/www/a"))⟩],
    ⟨1, .ok (.createFile ⟨.slash, ["www", [CodePoint.ofChar 'b', CodePoint.null]]⟩)⟩, [], by cbv, ?_,
    by cbv⟩
  refine carriedOut_cons.2 (.inl ⟨_, ?_, carriedOut_nil.2 ⟨rfl, rfl⟩⟩)
  cbv

end Layout

end TreePlan
