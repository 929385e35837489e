import TreePlan.Proofs.Except
import TreePlan.Settings.Load

/-! Settings that are read on a file system. Nothing is changed by it, so they are what the file system and the
layers say. -/

namespace TreePlan.Settings

/-- The layers merged, an override of the trace path taken for what it leads to. -/
def mergeAt (fs : FileSystem) (base : Settings) (payload : Fields) (o : Overrides) :
    Except SettingsError Settings := do
  let settings ← merge base payload { o with tracePath := none }
  match o.tracePath with
  | none => return settings
  | some path => do
    let path ← (fs.realPath path).mapError .failed
    override settings { tracePath := some path }

/-- What the settings file in a directory says. -/
def fileAt (fs : FileSystem) (root : Path) : Except SettingsError Fields := do
  let path := (root.join fileName).toText
  unless ← (fs.exists path).mapError .failed do return []
  let content ← (fs.readFile path).mapError .failed
  let text ← (Utf8.decode content).mapError fun f => .failed (.undecodable f)
  (Toml.read text).mapError .document

def loadAt (fs : FileSystem) (root : Path) (o : Overrides) : Except SettingsError Settings := do
  let root ← (fs.realPath root).mapError .failed
  mergeAt fs (default root) (← fileAt fs root) o

variable {now : Text} {input : Bytes}

theorem looks_mergeOn (base : Settings) (payload : Fields) (o : Overrides) :
    Looks (mergeOn (FileSystem.host now input) base payload o) fun fs => mergeAt fs base payload o := by
  unfold mergeOn mergeAt
  refine (looks_liftM _).bind fun settings => ?_
  cases o.tracePath with
  | none => exact fun _ => rfl
  | some path =>
    have hpath : Looks ((FileSystem.host now input).realPath path) fun fs => fs.realPath path := fun _ => rfl
    exact (hpath.adapt _).bind fun _ => looks_liftM _

end TreePlan.Settings
