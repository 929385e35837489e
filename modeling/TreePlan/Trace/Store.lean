import TreePlan.Host
import TreePlan.Trace.Log

/-!
A trace log kept on a host: records are added to the file at its end and the last of them read back.
-/

namespace TreePlan

variable {m : Type → Type} [Monad m]

namespace Log

/-- Adds a record to the log at a path; its directory is made first. -/
def record (host : Host m) (path : Path) (r : Record) : ExceptT Failure m Unit := do
  host.makeDirectories path.parent
  let line ← liftM (line r)
  host.append path.toText (Utf8.encodeName line)

def note (host : Host m) (path : Path) (e : Event) : ExceptT Failure m Unit := do
  record host path ⟨← host.now, e⟩

/-- The last records of the log at a path, oldest first. -/
def tail (host : Host m) (path : Path) (limit : Int) (failuresOnly : Bool) :
    ExceptT Failure m (List Fields) := do
  if limit < 1 then return []
  unless ← host.isFile path.toText do return []
  if limitBound < limit then throw .limitTooLarge
  let records ← liftM (records failuresOnly (← host.readFile path.toText))
  return last limit.toNat records

end Log

end TreePlan
