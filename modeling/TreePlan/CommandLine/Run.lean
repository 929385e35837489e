import TreePlan.CommandLine.Arguments
import TreePlan.Layout.Create
import TreePlan.Settings.Load

/-!
The program: reads its arguments and settings, carries out one command on a host and says how it
ended. It prints one line of JSON or a complaint, never both; what neither the arguments nor the
settings nor the layout are to blame for is a failure.
-/

namespace TreePlan.CommandLine

inductive Complaint where
  | arguments (program : Text) (fault : ArgumentFault)
  | settings (error : SettingsError)
  | unreadable (layout : Text) (failure : Failure)
deriving DecidableEq, Repr

namespace Complaint

def program : Complaint → Text
  | .arguments program _ => program
  | _ => CommandLine.program

def message : Complaint → Text
  | .arguments _ fault => fault.message
  | .settings error => error.message
  | .unreadable layout failure => "cannot read layout " ++ layout ++ ": " ++ failure.reason

def line (c : Complaint) : Text := c.program ++ ": error: " ++ c.message

end Complaint

structure Exit where
  code : Nat
  output : Text := []
  complaint : Option Complaint := none

namespace Exit

def complain (c : Complaint) : Exit := { code := 2, complaint := some c }

def answer (ok : Bool) (fields : Fields) : Exit :=
  { code := if ok then 0 else 1, output := Json.print (.map fields) ++ "\n" }

end Exit

variable {m : Type → Type} [Monad m]

def decoded (b : Bytes) : Except Failure Text :=
  ((Utf8.decode b).mapError Failure.undecodable).map Text.unifyNewlines

/-- A dash stands for the input of the program. -/
def readLayout (host : Host m) (source : Text) : ExceptT Failure m Text := do
  if source = "-" then liftM (decoded (← host.input))
  else liftM (decoded (← host.readFile (Path.ofText source).toText))

/-- No name of an encoding is as bad as an empty one. -/
def encodingOf : Given → Option Text
  | .blank => some []
  | given => given.text?

def overridesOf (a : Arguments) : Except Failure Overrides := do
  let log ← a.traceLog.path?
  return {
    strictExtras := a.strictExtras
    encoding := encodingOf a.encoding
    tracePath := log.map .ofText }

/-- Goes on with the text of a layout, unless the system does not let it be read. -/
def withLayout (host : Host m) (source : Text) (next : Text → ExceptT Failure m Exit) :
    ExceptT Failure m Exit := do
  match ← ExceptT.lift (readLayout host source).run with
  | .ok text => next text
  | .error f => if f.kind.isSystem then return .complain (.unreadable source f) else throw f

/-- That a prefix is missing its path shows once the layout is known to be right. -/
def checkPlace (strict : Bool) (text : Text) (place : Given) : Except Failure Unit :=
  match Layout.parse strict text, place.path? with
  | .ok _, .error f => .error f
  | _, _ => .ok ()

def carryOut (host : Host m) (settings : Settings) : Command → ExceptT Failure m Exit
  | .trace limit failuresOnly => do
    let limit ← liftM limit.limit
    let records ← Log.tail host settings.tracePath limit failuresOnly
    return .answer true
      [("path", .text settings.tracePath.toText), ("events", .list (records.map .map))]
  | .check layout =>
    withLayout host layout fun text =>
      match Layout.check settings.strictExtras text with
      | .ok verdict => return .answer verdict.valid verdict.fields
      | .error fault => throw (.oversized fault)
  | .create layout place =>
    withLayout host layout fun text => do
      liftM (checkPlace settings.strictExtras text place)
      let status ← Layout.create host text place.text? (some settings) none
      return .answer status.ok status.envelope

def run (host : Host m) (args : List Text) : ExceptT Failure m Exit := do
  match Arguments.read args with
  | .error (.help text) => return { code := 0, output := text }
  | .error (.fault program fault) => return .complain (.arguments program fault)
  | .ok a =>
    let overrides ← liftM (overridesOf a)
    let root := (← liftM a.root.path?).getD defaultRoot
    match ← ExceptT.lift (Settings.load host (.ofText root) overrides).run with
    | .error (.failed f) =>
      if f.kind.isValue then return .complain (.settings (.failed f)) else throw f
    | .error e => return .complain (.settings e)
    | .ok settings => carryOut host settings a.command

end TreePlan.CommandLine
