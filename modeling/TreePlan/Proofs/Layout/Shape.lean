import TreePlan.Proofs.Build.Stray
import TreePlan.Proofs.Fields
import TreePlan.Proofs.Layout.Creation

/-! The shapes of a status, on every host and under all settings: all is well, the layout is invalid, the
place is blocked, or the run has stopped at an entry. The status is for an invalid layout just when
checking finds it invalid, and then nothing has been called. Where there is no status, the failure is one
of those that nothing in a run locates. -/

namespace TreePlan

open Run (Ends Replays)

namespace Status

/-- What a status can be, by the layout it is about. -/
inductive Shape (strict : Bool) (layout : Text) : Status → Prop where
  | well {es : List Entry} {created : List Text} : Layout.parse strict layout = .ok es →
      created.length = es.length →
      Shape strict layout { ok := true, code := 200, message := "OK", created }
  | invalid (message : Text) (line : Nat) :
      Shape strict layout
        { ok := false, code := 400, message, kind := some .invalid, line := some line }
  | blocked (message : Text) (path : Option Text) :
      Shape strict layout { ok := false, code := 400, message, kind := some .blocked, path }
  | stopped {es : List Entry} {kind : ErrorKind} {k : Nat} (message path : Text) :
      Layout.parse strict layout = .ok es → kind = .navigation ∨ kind = .creation → k < es.length →
      Shape strict layout
        { ok := false, code := 500, message, kind := some kind, path := some path, index := some k }

/-- The envelope has an error just when not all is well, with what its kind asks for. -/
structure Enveloped (s : Status) : Prop where
  error_iff : (s.envelope.get? "error").isSome = true ↔ s.ok = false
  error : ∀ kind, s.kind = some kind → ∃ fields : Fields, s.envelope.get? "error" = some (.map fields) ∧
    fields.get? "code" = some (.text kind.code) ∧
    ((fields.get? "line").isSome = true ↔ kind = .invalid) ∧
    ((fields.get? "entry_index").isSome = true ↔ kind = .navigation ∨ kind = .creation)

variable {s : Status} {strict : Bool} {layout : Text}

theorem envelope_error (s : Status) :
    s.envelope.get? "error" = s.kind.map fun kind => .map (s.errorFields kind) := by
  unfold envelope
  cases s.kind with
  | none => rfl
  | some kind => rfl

theorem errorFields_line (s : Status) (kind : ErrorKind) :
    Fields.get? (s.errorFields kind) "line" = s.line.map .int := by
  unfold errorFields
  cases s.line <;> cases s.path <;> cases s.index <;> rfl

theorem errorFields_index (s : Status) (kind : ErrorKind) :
    Fields.get? (s.errorFields kind) "entry_index" = s.index.map .int := by
  unfold errorFields
  cases s.line <;> cases s.path <;> cases s.index <;> rfl

theorem Shape.enveloped (h : Shape strict layout s) : s.Enveloped where
  error_iff := by
    rw [envelope_error, Option.isSome_map]
    cases h <;> simp
  error kind hk := by
    refine ⟨s.errorFields kind, by rw [envelope_error, hk]; rfl, rfl, ?_, ?_⟩
    · rw [errorFields_line, Option.isSome_map]
      cases h with
      | well => cases hk
      | invalid | blocked => cases hk; simp
      | stopped _ _ _ hkind => cases hk; rcases hkind with rfl | rfl <;> simp
    · rw [errorFields_index, Option.isSome_map]
      cases h with
      | well => cases hk
      | invalid | blocked => cases hk; simp
      | stopped _ _ _ hkind => cases hk; rcases hkind with rfl | rfl <;> simp

end Status

namespace Layout

open Build

variable {σ : Type}

/-! What settings, or none, ask for. -/

def strictOf (settings : Option Settings) : Bool := settings.any fun s => s.strictExtras

/-- A log that is given goes before the one of the settings. -/
def logOf (settings : Option Settings) (log : Option Path) : Option Path :=
  log <|> settings.bind fun s => if s.traceEnabled then some s.tracePath else none

def optionsOf (settings : Option Settings) (log : Option Path) : Options :=
  { encoding := (settings.map fun s => s.encoding).getD "utf-8", observed := (logOf settings log).isSome }

/-- To build a layout is to read it, to look at the place and to perform the run. -/
theorem create_run_on (host : Host (StateM σ)) (layout : Text) (place : Option Text)
    (settings : Option Settings) (log : Option Path) (s : σ) :
    (create host layout place settings log).run s =
      match parse (strictOf settings) layout with
      | .error (.oversized fault) => (.error (.oversized fault), s)
      | .error (.invalid e) => (.ok (.ofSyntaxError e), s)
      | .ok es =>
        match (prefixPath host place).run s with
        | (.error (.refused r), t) => (.ok (.ofRefusal r place), t)
        | (.error (.failed f), t) => (.error f, t)
        | (.ok root, t) =>
          let (r, u) := (Build.entries (optionsOf settings log) root es).perform
            (answerTraced host (logOf settings log)) t
          (report r, u) := by
  unfold create strictOf
  dsimp only
  cases parse (settings.any fun s => s.strictExtras) layout with
  | error f => cases f <;> rfl
  | ok es =>
    dsimp only
    obtain ⟨r, t, hr⟩ : ∃ r t, (prefixPath host place).run s = (r, t) := ⟨_, _, rfl⟩
    rw [hr]
    refine (run_bind_of_ok (run_lift_of_eq hr)).trans ?_
    cases r with
    | error r => cases r <;> rfl
    | ok root =>
      dsimp only
      generalize hp : (Build.entries (optionsOf settings log) root es).perform
        (answerTraced host (logOf settings log)) t = p
      obtain ⟨r, u⟩ := p
      refine (run_bind_of_ok (run_lift_of_eq hp)).trans ?_
      cases r with
      | ok paths => rfl
      | error stop => cases stop <;> rfl

/-- Whatever a run over a layout is answered, what a caller is told of it has a shape, and is not that the
layout is invalid or the place blocked. -/
theorem shape_of_ends {strict : Bool} {layout : Text} {es : List Entry} {o : Options} {root : Path}
    {exchanges : List Exchange} {r : Except Stop (List Path)} {status : Status}
    (hp : parse strict layout = .ok es) (h : Ends (Build.entries o root es) exchanges r)
    (hr : report r = .ok status) :
    status.Shape strict layout ∧ status.kind ≠ some .invalid ∧ status.kind ≠ some .blocked := by
  cases r with
  | ok paths =>
    cases hr
    obtain ⟨u, -, hpaths⟩ := proceeds_of_entries h
    cases u with
    | error stop => cases hpaths
    | ok u =>
      cases hpaths
      exact ⟨.well hp (by simp [Plan.length_each]), by simp [Status.ofPaths], by simp [Status.ofPaths]⟩
  | error stop =>
    cases stop with
    | stray f => cases hr
    | located l =>
      cases hr
      have hindex : l.index < es.length := by
        obtain ⟨logs, hc, rfl⟩ := ends_buildFrom.1 h
        rcases hc.outcome rfl rfl (.start root) (parse_nested hp) (parse_isSound hp) with
          ⟨⟨paths, hpaths⟩, -⟩ | ⟨init, last, e, _, rfl, -, he, hs, hout⟩
        · cases hpaths
        · cases hs
          cases hout with
          | located hindex =>
            have hlt := (List.getElem?_eq_some_iff.1 he).1
            omega
      have hkind : (Status.ofStop l).kind = some .navigation ∨ (Status.ofStop l).kind = some .creation := by
        cases hk : l.kind <;> simp [Status.ofStop, hk]
      refine ⟨.stopped l.message l.path.toText hp ?_ hindex, ?_, ?_⟩
      · simpa [Status.ofStop] using hkind
      · rcases hkind with hk | hk <;> simp [hk]
      · rcases hkind with hk | hk <;> simp [hk]

/-- How building a layout ends in a failure: checking it fails too, or the place can't be looked at, or
the run is stopped by a failure that nothing locates. -/
inductive Unreported (host : Host (StateM σ)) (layout : Text) (place : Option Text)
    (settings : Option Settings) (log : Option Path) (s : σ) : Failure → σ → Prop where
  | oversized {fault : Json.Fault} : check (strictOf settings) layout = .error fault →
      Unreported host layout place settings log s (.oversized fault) s
  | nowhere {f : Failure} {t : σ} : (prefixPath host place).run s = (.error (.failed f), t) →
      Unreported host layout place settings log s f t
  | stray {es : List Entry} {root : Path} {exchanges : List Exchange} {f : Failure} {t u : σ} :
      parse (strictOf settings) layout = .ok es → (prefixPath host place).run s = (.ok root, t) →
      Replays (answerTraced host (logOf settings log)) t exchanges u →
      Strays (optionsOf settings log).encoding es exchanges f →
      Unreported host layout place settings log s f u

theorem check_eq_invalid_iff {strict : Bool} {layout : Text} :
    (∃ v, check strict layout = .ok v ∧ v.valid = false) ↔ ∃ e, parse strict layout = .error (.invalid e) := by
  unfold check
  cases parse strict layout with
  | ok es => simp
  | error f => cases f <;> simp

/-- What holds of the end of building a layout and of the state that it leaves. -/
structure Reports (host : Host (StateM σ)) (layout : Text) (place : Option Text)
    (settings : Option Settings) (log : Option Path) (s : σ) (r : Except Failure Status) (t : σ) : Prop where
  shape : ∀ status, r = .ok status → status.Shape (strictOf settings) layout ∧ status.Enveloped
  invalid_iff : (∃ status, r = .ok status ∧ status.kind = some .invalid) ↔
    ∃ v, check (strictOf settings) layout = .ok v ∧ v.valid = false
  /-- Of an invalid layout a caller is told what checking tells, and the state is as it was. -/
  invalid : ∀ v, check (strictOf settings) layout = .ok v → v.valid = false →
    t = s ∧ ∃ status error line, r = .ok status ∧ v.error = some error ∧ v.line = some line ∧
      status.line = some (line : Int) ∧ status.message = "Syntax error in layout: " ++ error
  /-- A place that is blocked has been looked at, and nothing else has been done. -/
  blocked : ∀ status, r = .ok status → status.kind = some .blocked →
    ∃ refusal, (prefixPath host place).run s = (.error (.refused refusal), t)
  unreported : ∀ f, r = .error f → Unreported host layout place settings log s f t

section Reports

variable {host : Host (StateM σ)} {layout : Text} {place : Option Text} {settings : Option Settings}
  {log : Option Path} {s t u : σ} {es : List Entry}

theorem reports_invalid {e : SyntaxError} (hp : parse (strictOf settings) layout = .error (.invalid e)) :
    Reports host layout place settings log s (.ok (.ofSyntaxError e)) s where
  shape := by
    rintro _ ⟨⟩
    have hshape : (Status.ofSyntaxError e).Shape (strictOf settings) layout := .invalid _ _
    exact ⟨hshape, hshape.enveloped⟩
  invalid_iff := by
    rw [check_eq_invalid_iff]
    exact ⟨fun _ => ⟨e, hp⟩, fun _ => ⟨_, rfl, rfl⟩⟩
  invalid := by
    rw [check, hp]
    rintro _ ⟨⟩ -
    exact ⟨rfl, _, _, _, rfl, rfl, rfl, rfl, rfl⟩
  blocked := by
    rintro _ ⟨⟩ ⟨⟩
  unreported := nofun

theorem reports_oversized {fault : Json.Fault}
    (hp : parse (strictOf settings) layout = .error (.oversized fault)) :
    Reports host layout place settings log s (.error (.oversized fault)) s where
  shape := nofun
  invalid_iff := by
    rw [check_eq_invalid_iff, hp]
    simp
  invalid := by simp [check, hp]
  blocked := nofun
  unreported := by
    rintro _ ⟨⟩
    exact .oversized (by rw [check, hp])

/-- Of a layout that has been read nobody is told that it is invalid. -/
theorem reports_valid {r : Except Failure Status} (hp : parse (strictOf settings) layout = .ok es)
    (hshape : ∀ status, r = .ok status → status.Shape (strictOf settings) layout ∧ status.kind ≠ some .invalid)
    (hblocked : ∀ status, r = .ok status → status.kind = some .blocked →
      ∃ refusal, (prefixPath host place).run s = (.error (.refused refusal), t))
    (hfailed : ∀ f, r = .error f → Unreported host layout place settings log s f t) :
    Reports host layout place settings log s r t where
  shape status hr := ⟨(hshape status hr).1, (hshape status hr).1.enveloped⟩
  invalid_iff := by
    rw [check_eq_invalid_iff, hp]
    refine iff_of_false ?_ (by simp)
    rintro ⟨status, hr, hk⟩
    exact (hshape status hr).2 hk
  invalid := by simp [check, hp]
  blocked := hblocked
  unreported := hfailed

theorem reports_refused {refusal : Refusal} (hp : parse (strictOf settings) layout = .ok es)
    (hplace : (prefixPath host place).run s = (.error (.refused refusal), t)) :
    Reports host layout place settings log s (.ok (.ofRefusal refusal place)) t := by
  refine reports_valid hp ?_ (fun _ _ _ => ⟨refusal, hplace⟩) nofun
  rintro _ ⟨⟩
  exact ⟨.blocked _ _, by simp [Status.ofRefusal]⟩

theorem reports_nowhere {f : Failure} (hp : parse (strictOf settings) layout = .ok es)
    (hplace : (prefixPath host place).run s = (.error (.failed f), t)) :
    Reports host layout place settings log s (.error f) t := by
  refine reports_valid hp nofun nofun ?_
  rintro _ ⟨⟩
  exact .nowhere hplace

theorem reports_run {root : Path} {r : Except Stop (List Path)}
    (hp : parse (strictOf settings) layout = .ok es) (hplace : (prefixPath host place).run s = (.ok root, t))
    (hrun : (Build.entries (optionsOf settings log) root es).perform
      (answerTraced host (logOf settings log)) t = (r, u)) :
    Reports host layout place settings log s (report r) u := by
  obtain ⟨exchanges, hends, hreplays⟩ := Run.perform_eq_iff.1 hrun
  refine reports_valid hp (fun status hr => ?_) (fun status hr hk => ?_) fun f hr => ?_
  · obtain ⟨hshape, hinvalid, -⟩ := shape_of_ends hp hends hr
    exact ⟨hshape, hinvalid⟩
  · exact absurd hk (shape_of_ends hp hends hr).2.2
  · have hstop : r = .error (.stray f) := by
      rcases r with (_ | _) | _ <;> cases hr
      rfl
    exact .stray hp hplace hreplays (strays_of_ends (parse_nested hp) hends hstop)

/-- Whatever the host answers and the settings ask for, building a layout ends in a status of one of the
four shapes, or in a failure that has its own reason to go unreported. -/
theorem create_reports (host : Host (StateM σ)) (layout : Text) (place : Option Text)
    (settings : Option Settings) (log : Option Path) (s : σ) :
    ∃ r t, (create host layout place settings log).run s = (r, t) ∧
      Reports host layout place settings log s r t := by
  refine ⟨_, _, create_run_on host layout place settings log s, ?_⟩
  cases hp : parse (strictOf settings) layout with
  | error f =>
    cases f with
    | oversized fault => exact reports_oversized hp
    | invalid e => exact reports_invalid hp
  | ok es =>
    obtain ⟨p, t, hplace⟩ : ∃ p t, (prefixPath host place).run s = (p, t) := ⟨_, _, rfl⟩
    dsimp only
    rw [hplace]
    cases p with
    | error e =>
      cases e with
      | refused refusal => exact reports_refused hp hplace
      | failed f => exact reports_nowhere hp hplace
    | ok root => exact reports_run hp hplace rfl

end Reports

set_option maxRecDepth 4000 in
/-- A place with a name that is too long can't be looked at, and that is not reported. -/
example : (create (FileSystem.host [] []) "a" (some (List.replicate 256 'x')) none none).run site =
    (.error (.system .nameTooLong), site) := by
  cbv

end Layout

end TreePlan
