import TreePlan.Proofs.FileSystem.Misuse
import TreePlan.Proofs.Settings.Layers

/-! Settings that can't be got at. Symlinks may lead in circles, and a settings file may be out of reach. All else
that can go wrong with settings is an error of what they say, or of a text that is no path. -/

namespace TreePlan

namespace FileSystem

variable {fs : FileSystem} {path dir : Path} {t : Text} {f : Failure}

end FileSystem

namespace Settings

variable {fs : FileSystem} {root : Path} {o : Overrides} {f : Failure} {base s : Settings} {payload fields : Fields}
  {v : Option Value} {name field below : Text} {e : SettingsError}

section Values

end Values

/-- Why settings can't be got at: the directory or the trace path leads in circles, or the system does not let the
settings file be looked at, or read. -/
inductive Lost (fs : FileSystem) (root : Path) (o : Overrides) : Failure → Prop where
  | root {link : Text} : fs.realPath root = .error (.linkLoop link) → Lost fs root o (.linkLoop link)
  | hidden {there : Path} {fault : SystemFault} : fs.realPath root = .ok there →
      fs.exists (there.join fileName).toText = .error (.system fault) → Lost fs root o (.system fault)
  | withheld {there : Path} {fault : SystemFault} : fs.realPath root = .ok there →
      fs.exists (there.join fileName).toText = .ok true →
      fs.readFile (there.join fileName).toText = .error (.system fault) → Lost fs root o (.system fault)
  | trace {there path : Path} {payload : Fields} {link : Text} : fs.realPath root = .ok there →
      fileAt fs there = .ok payload → Sound payload →
      (∀ name, o.encoding = some name → ∃ codec, Codec.lookup name = .ok codec) → o.tracePath = some path →
      fs.realPath path = .error (.linkLoop link) → Lost fs root o (.linkLoop link)

end Settings

end TreePlan
