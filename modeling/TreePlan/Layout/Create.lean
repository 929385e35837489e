import TreePlan.Build.Entries
import TreePlan.Settings.Basic
import TreePlan.Status
import TreePlan.Trace.Store

/-!
Building a layout below a directory on a host. Problems with a layout or with what it asks for end in
a status; what is neither ends in a failure.
-/

namespace TreePlan

variable {m : Type → Type} [Monad m]

namespace Build

inductive PrefixError where
  | refused (refusal : Refusal)
  | failed (failure : Failure)
deriving DecidableEq, Repr

/-- The directory to build in; without one, the working directory. -/
def prefixPath (host : Host m) : Option Text → ExceptT PrefixError m Path
  | none => host.workingDirectory.adapt .failed
  | some t => do
    if t.isEmpty then throw (.refused .emptyPrefix)
    if ← (host.isDirectory (Path.ofText t).toText).adapt .failed then return .ofText t
    throw (.refused (.missingPrefix t))

/-- Answers calls on a host, with a trace log as the observer if there is one. -/
def answerTraced (host : Host m) (log : Option Path) : Call → m Answer
  | .observe e =>
    match log with
    | none => pure (.ok ())
    | some path => (Log.note host path e).run
  | c => host.answer c

end Build

namespace Status

def ofRefusal (r : Refusal) (place : Option Text) : Status :=
  { ok := false, code := 400, message := r.reason ++ " " ++ r.hint, kind := some .blocked
    path := place }

def ofStop (l : Located) : Status :=
  { ok := false, code := 500, message := l.message
    kind := some (match l.kind with | .navigation => .navigation | .creation => .creation)
    path := some l.path.toText, index := some l.index }

def ofPaths (paths : List Path) : Status :=
  { ok := true, code := 200, message := "OK", created := paths.map Path.toText }

end Status

namespace Layout

/-- Builds the entries of a layout below a prefix. The log given is used for tracing, or else the one
of the settings if they ask for it. -/
def create (host : Host m) (layout : Text) (place : Option Text) (settings : Option Settings)
    (log : Option Path) : ExceptT Failure m Status := do
  let strict := settings.any fun s => s.strictExtras
  let encoding : Text := (settings.map fun s => s.encoding).getD "utf-8"
  let log := log <|> settings.bind fun s => if s.traceEnabled then some s.tracePath else none
  match parse strict layout with
  | .error (.oversized fault) => throw (.oversized fault)
  | .error (.invalid e) => return .ofSyntaxError e
  | .ok entries =>
    match ← (Build.prefixPath host place).run with
    | .error (.refused r) => return .ofRefusal r place
    | .error (.failed f) => throw f
    | .ok root =>
      let run := Build.entries { encoding, observed := log.isSome } root entries
      match ← ExceptT.lift (run.perform (Build.answerTraced host log)) with
      | .ok paths => return .ofPaths paths
      | .error (.located l) => return .ofStop l
      | .error (.stray f) => throw f

end Layout

end TreePlan
