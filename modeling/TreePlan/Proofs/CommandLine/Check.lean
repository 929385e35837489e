import TreePlan.CommandLine.Run
import TreePlan.Proofs.Json.Ascii
import TreePlan.Proofs.Settings.Loss
import TreePlan.Proofs.Text.Order

/-! What comes of a command line that asks for a check. Settings come first, then the bytes of the layout, then its
text. A check that gets through ends with one line and the exit that goes with it. The settings being at fault, or
the system not giving the layout, it ends with a complaint; whatever else is in the way leaves the program. -/

namespace TreePlan.CommandLine

/-- An option that asks for a path may be given without one. -/
def Blank (a : Arguments) : Prop := a.root = .blank ∨ a.traceLog = .blank

def rootOf (a : Arguments) : Path := .ofText (a.root.text?.getD defaultRoot)

def overriding (a : Arguments) : Overrides where
  strictExtras := a.strictExtras
  encoding := encodingOf a.encoding
  tracePath := a.traceLog.text?.map .ofText

/-- The settings that arguments ask for. -/
def settingsAt (fs : FileSystem) (a : Arguments) : Except SettingsError Settings :=
  Settings.loadAt fs (rootOf a) (overriding a)

/-- The bytes that a layout is read from. -/
def layoutAt (fs : FileSystem) (input : Bytes) (source : Text) : Except Failure Bytes :=
  if source = "-" then .ok input else fs.readFile (Path.ofText source).toText

/-- The answer to a check, in one line. -/
def answerOf (v : Verdict) : Text :=
  "\x7b\"error\": " ++ Json.print (.ofOption .text v.error) ++ ", \"line\": " ++
    Json.print (.ofOption .ofNat v.line) ++ ", \"valid\": " ++ Json.print (.bool v.valid) ++ "\x7d"

/-- What leaves a check: that an option lacks its path, that the settings can't be got at, that the layout has no name
or no text, or that an integer in it is too long. -/
inductive Leaves (fs : FileSystem) (input : Bytes) (a : Arguments) (layout : Text) : Failure → Prop where
  | blank : Blank a → Leaves fs input a layout .noPath
  | lost {f : Failure} : ¬Blank a → Settings.Lost fs (rootOf a) (overriding a) f → Leaves fs input a layout f
  | unnamed {s : Settings} {f : Failure} : ¬Blank a → settingsAt fs a = .ok s → layout ≠ "-" →
      systemBytes (Path.ofText layout).toText = .error f → Leaves fs input a layout f
  | garbled {s : Settings} {content : Bytes} {fault : Utf8.DecodingFault} : ¬Blank a → settingsAt fs a = .ok s →
      layoutAt fs input layout = .ok content → Utf8.decode content = .error fault →
      Leaves fs input a layout (.undecodable fault)
  | oversized {s : Settings} {content : Bytes} {text : Text} {fault : Json.Fault} : ¬Blank a →
      settingsAt fs a = .ok s → layoutAt fs input layout = .ok content → Utf8.decode content = .ok text →
      Layout.check s.strictExtras text.unifyNewlines = .error fault → Leaves fs input a layout (.oversized fault)

/-- All the ways in which a check can end. -/
inductive Checks (fs : FileSystem) (input : Bytes) (a : Arguments) (layout : Text) : Except Failure Exit → Prop where
  | answered {s : Settings} {content : Bytes} {text : Text} {v : Verdict} : ¬Blank a → settingsAt fs a = .ok s →
      layoutAt fs input layout = .ok content → Utf8.decode content = .ok text →
      Layout.check s.strictExtras text.unifyNewlines = .ok v →
      Checks fs input a layout (.ok ⟨if v.valid then 0 else 1, answerOf v ++ "\n", none⟩)
  | misconfigured {e : SettingsError} : ¬Blank a → settingsAt fs a = .error e → e.isValue = true →
      Checks fs input a layout (.ok ⟨2, [], some (.settings e)⟩)
  | unreadable {s : Settings} {fault : SystemFault} : ¬Blank a → settingsAt fs a = .ok s →
      layoutAt fs input layout = .error (.system fault) →
      Checks fs input a layout (.ok ⟨2, [], some (.unreadable layout (.system fault))⟩)
  | leaves {f : Failure} : Leaves fs input a layout f → Checks fs input a layout (.error f)

variable {fs fs' : FileSystem} {input content : Bytes} {a : Arguments} {args : List Text} {layout now source : Text}
  {r : Except Failure Exit} {v : Verdict}

section Answer

end Answer

section Run

end Run

section Ways

end Ways

end TreePlan.CommandLine
