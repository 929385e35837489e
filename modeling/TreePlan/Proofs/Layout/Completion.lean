import TreePlan.Proofs.Build.Settled
import TreePlan.Proofs.Layout.Escape
import TreePlan.Proofs.Layout.Shape

/-! Building a layout that ends well, under all settings that ask for no trace. That is so just when the layout
has been read, there is a directory to build in, and all steps of the plan have been carried out. -/

namespace TreePlan.Layout

open Build

variable {fs gs : FileSystem} {now layout : Text} {input : Bytes} {place : Option Text}
  {settings : Option Settings} {status : Status}

/-- The encoding of the files built. -/
def encodingOf (settings : Option Settings) : Text := (optionsOf settings none).encoding

theorem create_run_quiet (now : Text) (input : Bytes) (layout : Text) (place : Option Text)
    (hquiet : logOf settings none = none) (fs : FileSystem) :
    (create (FileSystem.host now input) layout place settings none).run fs =
      match parse (strictOf settings) layout with
      | .error (.oversized fault) => (.error (.oversized fault), fs)
      | .error (.invalid e) => (.ok (.ofSyntaxError e), fs)
      | .ok es =>
        match fs.checkPlace place with
        | .error (.refused r) => (.ok (.ofRefusal r place), fs)
        | .error (.failed f) => (.error f, fs)
        | .ok _ =>
          let (r, gs) := (Build.entries (optionsOf settings none) (fs.placePath place) es).perform
            FileSystem.answer fs
          (report r, gs) := by
  rw [create_run_on, hquiet, answerTraced_host]
  cases parse (strictOf settings) layout with
  | error f => cases f <;> rfl
  | ok es =>
    dsimp only
    rw [prefixPath_run]
    cases fs.checkPlace place with
    | error r => cases r <;> rfl
    | ok _ => rfl

/-- All is well just when the whole plan has been carried out. -/
theorem create_well_iff (hquiet : logOf settings none = none) :
    ((create (FileSystem.host now input) layout place settings none).run fs = (.ok status, gs) ∧
        status.ok = true) ↔
      ∃ es, parse (strictOf settings) layout = .ok es ∧ fs.checkPlace place = .ok () ∧
        CarriedOut (Plan.steps (fs.placePath place) (encodingOf settings) es) fs none gs ∧
        status = .ofPaths (Plan.paths (fs.placePath place) es) := by
  rw [create_run_quiet now input layout place hquiet]
  cases hp : parse (strictOf settings) layout with
  | error f =>
    refine iff_of_false ?_ nofun
    cases f with
    | oversized fault => rintro ⟨⟨⟩, -⟩
    | invalid e => rintro ⟨⟨⟩, ⟨⟩⟩
  | ok es =>
    cases hc : fs.checkPlace place with
    | error r =>
      refine iff_of_false ?_ ?_
      · cases r with
        | refused r => rintro ⟨⟨⟩, ⟨⟩⟩
        | failed f => rintro ⟨⟨⟩, -⟩
      · rintro ⟨_, -, ⟨⟩, -⟩
    | ok _ =>
      obtain ⟨r, hs, hr⟩ : ∃ r hs, (Build.entries (optionsOf settings none) (fs.placePath place) es).perform
          FileSystem.answer fs = (r, hs) := ⟨_, _, rfl⟩
      obtain ⟨out, hsteps, rfl⟩ := entries_carriedOut (parse_nested hp) (parse_isSound hp) hr
      dsimp only
      rw [hr]
      refine ⟨?_, ?_⟩
      · rintro ⟨h, hok⟩
        obtain ⟨hreport, rfl⟩ := Prod.mk.inj h
        obtain rfl := report_ok_iff.1 ⟨status, hreport, hok⟩
        exact ⟨es, rfl, rfl, hsteps, (Except.ok.inj hreport).symm⟩
      · rintro ⟨_, ⟨⟩, -, hall, rfl⟩
        obtain ⟨rfl, hout, -⟩ := hsteps.unique hall
        rw [hout.2 rfl]
        exact ⟨rfl, rfl⟩

end TreePlan.Layout
