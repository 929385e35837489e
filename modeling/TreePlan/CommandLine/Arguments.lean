import TreePlan.CommandLine.Grammar
import TreePlan.Failure

/-!
The arguments of the program: settings that hold for every command, and a command with its own. What
is asked for first is done first: help that stands before a fault is given, and the fault is not
looked at.
-/

namespace TreePlan.CommandLine

/-- What is given for an option that takes a value. -/
inductive Given where
  | nothing
  /-- The option stands there without a value. -/
  | blank
  | value (t : Text)
deriving DecidableEq, Repr

namespace Given

def text? : Given → Option Text
  | .value t => some t
  | _ => none

/-- The path given, if there is one. -/
def path? : Given → Except Failure (Option Text)
  | .blank => .error .noPath
  | given => .ok given.text?

end Given

inductive Command where
  | create (layout : Text) (place : Given)
  | check (layout : Text)
  | trace (limit : Given) (failuresOnly : Bool)
deriving DecidableEq, Repr

structure Arguments where
  root : Given
  strictExtras : Option Bool
  encoding : Given
  traceLog : Given
  command : Command
deriving DecidableEq, Repr

/-- Why there is nothing to be done. -/
inductive Halt where
  | help (text : Text)
  | fault (program : Text) (fault : ArgumentFault)
deriving DecidableEq, Repr

def helpOption : OptionSpec := ⟨["-h", "--help"], .help⟩

def rootOption : OptionSpec := ⟨["--config-root"], .text⟩

def strictOption : OptionSpec := ⟨["--strict-extras"], .flag⟩

def encodingOption : OptionSpec := ⟨["--content-encoding"], .text⟩

def traceOption : OptionSpec := ⟨["--trace-log"], .text⟩

def prefixOption : OptionSpec := ⟨["--prefix"], .text⟩

def limitOption : OptionSpec := ⟨["--limit"], .integer⟩

def failuresOption : OptionSpec := ⟨["--failures"], .flag⟩

def program : Text := "fslayout"

def mainGrammar : Grammar where
  program := program
  options := [helpOption, rootOption, strictOption, encodingOption, traceOption]
  operand := .command "command"
  help := "usage: fslayout [-h] [--config-root CONFIG_ROOT] [--strict-extras]
                [--content-encoding CONTENT_ENCODING] [--trace-log TRACE_LOG]
                \x7bcreate,check,trace\x7d ...

Create files/directories according to a layout.

positional arguments:
  \x7bcreate,check,trace\x7d
    create              Create entries described by a layout.
    check               Check a layout for syntax errors.
    trace               Show recent trace log events.

options:
  -h, --help            show this help message and exit
  --config-root CONFIG_ROOT
  --strict-extras
  --content-encoding CONTENT_ENCODING
  --trace-log TRACE_LOG
"

def createGrammar : Grammar where
  program := "fslayout create"
  options := [helpOption, prefixOption]
  operand := .single "layout"
  help := "usage: fslayout create [-h] [--prefix PREFIX] layout

positional arguments:
  layout           Layout file path, or '-' for stdin.

options:
  -h, --help       show this help message and exit
  --prefix PREFIX
"

def checkGrammar : Grammar where
  program := "fslayout check"
  options := [helpOption]
  operand := .single "layout"
  help := "usage: fslayout check [-h] layout

positional arguments:
  layout      Layout file path, or '-' for stdin.

options:
  -h, --help  show this help message and exit
"

def traceGrammar : Grammar where
  program := "fslayout trace"
  options := [helpOption, limitOption, failuresOption]
  operand := .none
  help := "usage: fslayout trace [-h] [--limit LIMIT] [--failures]

options:
  -h, --help     show this help message and exit
  --limit LIMIT
  --failures     Only show failed operations.
"

def defaultLimit : Int := 20

/-- The number given, or the one that holds without it. -/
def Given.limit : Given → Except Failure Int
  | .nothing => .ok defaultLimit
  | .blank => .error .noNumber
  | .value t => (Numeral.readInt t).mapError (Failure.numeral t)

def defaultRoot : Text := "."

/-- Why an option that has been understood halts the program, if it does. -/
def haltOf? (g : Grammar) : Taken → Option Halt
  | .operand _ => none
  | .option spec value =>
    match spec.kind with
    | .help => some (.help g.help)
    | .integer =>
      match value.filter fun t => !(Numeral.readInt t).toBool with
      | none => none
      | some t => some (.fault g.program (.invalidInteger spec.title t))
    | _ => none

/-- The operand that a grammar cannot do without and a reading lacks. -/
def missing? (g : Grammar) (r : Reading) : Option ArgumentFault :=
  let present := r.taken.any fun t => match t with | .operand _ => true | _ => false
  match g.operand with
  | .none => none
  | .single name | .command name => if present then none else some (.missing [name])

def checked (g : Grammar) (r : Reading) : Except Halt Reading :=
  match r.taken.findSome? (haltOf? g) with
  | some halt => .error halt
  | none =>
    match r.fault <|> missing? g r with
    | some fault => .error (.fault g.program fault)
    | none => .ok r

def Reading.values (r : Reading) (spec : OptionSpec) : List (Option Text) :=
  r.taken.filterMap fun t =>
    match t with
    | .option s value => if s = spec then some value else none
    | .operand _ => none

/-- An option that is given more than once has its last value. -/
def Reading.given (r : Reading) (spec : OptionSpec) : Given :=
  match (r.values spec).getLast? with
  | none => .nothing
  | some none => .blank
  | some (some t) => .value t

def Reading.has (r : Reading) (spec : OptionSpec) : Bool := !(r.values spec).isEmpty

def Reading.operand (r : Reading) : List Text :=
  r.taken.flatMap fun t =>
    match t with
    | .operand args => args
    | .option _ _ => []

/-- The two dashes before or after an operand are no part of it. -/
def Reading.single (r : Reading) : Text := (r.operand.erase dashes).head?.getD []

def commands : List (Text × Grammar × (Reading → Command)) :=
  [("create", createGrammar, fun r => .create r.single (r.given prefixOption)),
    ("check", checkGrammar, fun r => .check r.single),
    ("trace", traceGrammar, fun r => .trace (r.given limitOption) (r.has failuresOption))]

/-- A command and the arguments it leaves over. -/
def readCommand (args : List Text) : Except Halt (Command × List Text) :=
  let name := args.head?.getD []
  match commands.lookup name with
  | none => .error (.fault program (.invalidChoice "command" name (commands.map Prod.fst)))
  | some (g, command) => do
    let r ← checked g (g.read (args.drop 1))
    return (command r, r.leftOver)

def Arguments.read (args : List Text) : Except Halt Arguments := do
  let r ← checked mainGrammar (mainGrammar.read args)
  let (command, leftOver) ← readCommand r.operand
  let leftOver := r.leftOver ++ leftOver
  if !leftOver.isEmpty then throw (.fault program (.unrecognized leftOver))
  return {
    command
    root := r.given rootOption
    strictExtras := if r.has strictOption then some true else none
    encoding := r.given encodingOption
    traceLog := r.given traceOption }

end TreePlan.CommandLine
