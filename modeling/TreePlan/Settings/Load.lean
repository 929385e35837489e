import TreePlan.Host
import TreePlan.Settings.Basic

/-!
The settings that hold below a directory on a host: the defaults, the file that the directory may hold
and the overrides.
-/

namespace TreePlan

variable {m : Type → Type} [Monad m]

namespace Settings

/-- The settings file in a directory, if there is one. -/
def loadFile (host : Host m) (root : Path) : ExceptT SettingsError m Fields := do
  let path := (root.join fileName).toText
  unless ← (host.exists path).adapt .failed do return []
  let content ← (host.readFile path).adapt .failed
  let text ← liftM ((Utf8.decode content).mapError fun f => SettingsError.failed (.undecodable f))
  liftM ((Toml.read text).mapError SettingsError.document)

/-- Merges the layers on a host: an override of the trace path, given from the working directory, is
made absolute when all else is settled. -/
def mergeOn (host : Host m) (base : Settings) (payload : Fields) (o : Overrides) :
    ExceptT SettingsError m Settings := do
  let settings ← liftM (merge base payload { o with tracePath := none })
  match o.tracePath with
  | none => return settings
  | some path =>
    let path ← (host.realPath path).adapt .failed
    liftM (override settings { tracePath := some path })

/-- The settings that hold below a directory. -/
def load (host : Host m) (root : Path) (o : Overrides) : ExceptT SettingsError m Settings := do
  let root ← (host.realPath root).adapt .failed
  mergeOn host (default root) (← loadFile host root) o

end Settings

end TreePlan
