import TreePlan.Text.Quoted

/-!
The grammar of a command line: options, which may be abbreviated and take a value after them or behind
an equals sign, and operands. Two dashes end the options. What begins with a dash and is no option is
still an operand if it is a negative number or has a space in it; else it is left over.

The interpreter meant is one of the early releases of the 3.11 series, such as 3.11.2. What they make of
text attached to an option has changed since. Here two dashes so attached are dropped, and the option has
no value; a flag takes what is attached to it for the letters of more flags, also behind an equals sign,
and an unknown one is a fault. In 3.11.10 the dashes are the value, nothing may stand behind a flag and an
equals sign, and unknown letters are left over.
-/

namespace TreePlan.CommandLine

inductive ValueKind where
  | flag
  | help
  | text
  | integer
deriving DecidableEq, Repr

structure OptionSpec where
  names : List Text
  kind : ValueKind
deriving DecidableEq, Repr

def OptionSpec.takesValue (o : OptionSpec) : Bool := o.kind == .text || o.kind == .integer

def OptionSpec.title (o : OptionSpec) : Text := Text.unlines "/" o.names

inductive Operand where
  | none
  | single (name : Text)
  /-- A command and all that follows it. -/
  | command (name : Text)
deriving DecidableEq, Repr

structure Grammar where
  program : Text
  options : List OptionSpec
  operand : Operand
  help : Text

/-- What is wrong with arguments. -/
inductive ArgumentFault where
  | ambiguous (given : Text) (names : List Text)
  | expectedValue (title : Text)
  | ignoredValue (title value : Text)
  | invalidInteger (title value : Text)
  | invalidChoice (title value : Text) (choices : List Text)
  | missing (names : List Text)
  | unrecognized (args : List Text)
deriving DecidableEq, Repr

def ArgumentFault.message : ArgumentFault → Text
  | .ambiguous given names =>
    "ambiguous option: " ++ given ++ " could match " ++ Text.unlines ", " names
  | .expectedValue title => "argument " ++ title ++ ": expected one argument"
  | .ignoredValue title value =>
    "argument " ++ title ++ ": ignored explicit argument " ++ value.quoted
  | .invalidInteger title value => "argument " ++ title ++ ": invalid int value: " ++ value.quoted
  | .invalidChoice title value choices =>
    "argument " ++ title ++ ": invalid choice: " ++ value.quoted ++ " (choose from "
      ++ Text.unlines ", " (choices.map Text.quoted) ++ ")"
  | .missing names => "the following arguments are required: " ++ Text.unlines ", " names
  | .unrecognized args => "unrecognized arguments: " ++ Text.unlines " " args

/-- An option, perhaps with a value written together with it. -/
structure Found where
  spec : OptionSpec
  name : Text
  attached : Option Text
deriving DecidableEq, Repr

/-- What an argument looks like before it is known what it is for. -/
inductive Mark where
  | plain
  | dashes
  | option (found : Option Found)
deriving DecidableEq, Repr

def Mark.isOption : Mark → Bool
  | .option _ => true
  | _ => false

abbrev Marked := List (Text × Mark)

def dashes : Text := "--"

/-- The digits of all scripts count, and a line break at the end does not. -/
def isNegativeNumber (t : Text) : Bool :=
  match t with
  | c :: r =>
    let r := if r.getLast? = some (CodePoint.ofChar '\n') then r.dropLast else r
    let whole := r.takeWhile CodePoint.isDecimal
    let rest := r.dropWhile CodePoint.isDecimal
    let fraction := rest.drop 1
    c = '-' && (if rest.isEmpty then !whole.isEmpty
      else rest.head? = some (CodePoint.ofChar '.') && !fraction.isEmpty
        && fraction.all CodePoint.isDecimal)
  | [] => false

/-- A text up to its first equals sign, and what is behind the sign. -/
def splitEquals (t : Text) : Text × Option Text :=
  let name := t.takeWhile fun c : CodePoint => c ≠ '='
  match t.dropWhile fun c : CodePoint => c ≠ '=' with
  | [] => (name, none)
  | _ :: value => (name, some value)

namespace Grammar

def names (g : Grammar) : List (OptionSpec × Text) :=
  g.options.flatMap fun o => o.names.map fun n => (o, n)

def named? (g : Grammar) (name : Text) : Option OptionSpec :=
  (g.names.find? fun p => p.2 = name).map fun p => p.1

/-- The options that an argument may abbreviate. A single dash and a letter may have more letters
joined to them. -/
def abbreviated (g : Grammar) (arg : Text) : List Found :=
  if arg.startsWith dashes then
    let (start, value) := splitEquals arg
    (g.names.filter fun p => Text.startsWith p.2 start).map fun p => ⟨p.1, p.2, value⟩
  else
    g.names.filterMap fun p =>
      if p.2 = arg.take 2 then some ⟨p.1, p.2, some (arg.drop 2)⟩
      else if Text.startsWith p.2 arg then some ⟨p.1, p.2, none⟩
      else none

def mark (g : Grammar) (arg : Text) : Except ArgumentFault Mark :=
  if !arg.startsWith "-" || arg.length = 1 then .ok .plain
  else match g.named? arg with
    | some spec => .ok (.option (some ⟨spec, arg, none⟩))
    | none =>
      let (name, value) := splitEquals arg
      match value, g.named? name with
      | some value, some spec => .ok (.option (some ⟨spec, name, some value⟩))
      | _, _ =>
        match g.abbreviated arg with
        | [found] => .ok (.option (some found))
        | [] =>
          .ok (if isNegativeNumber arg || arg.contains ' ' then .plain else .option none)
        | several => .error (.ambiguous arg (several.map fun f => f.name))

def markAll (g : Grammar) : List Text → Except ArgumentFault Marked
  | [] => .ok []
  | arg :: rest =>
    if arg = dashes then .ok ((arg, .dashes) :: rest.map fun a => (a, .plain))
    else do
      let m ← g.mark arg
      let ms ← g.markAll rest
      return (arg, m) :: ms

end Grammar

/-- An argument that has been understood. Options that take no value have none, and the others may be
given without one. -/
inductive Taken where
  | option (spec : OptionSpec) (value : Option Text)
  | operand (args : List Text)
deriving DecidableEq, Repr

/-- What a command line says, in order, up to a fault if there is one, and what is left over. -/
structure Reading where
  taken : List Taken := []
  leftOver : List Text := []
  fault : Option ArgumentFault := none

def Reading.after (r : Reading) (taken : List Taken) (leftOver : List Text) : Reading :=
  { r with taken := taken ++ r.taken, leftOver := leftOver ++ r.leftOver }

namespace Grammar

/-- Two dashes are no value, even where they are attached to an option. -/
def valueOf (attached : Text) : Option Text := if attached = dashes then none else some attached

/-- An option with a value attached to it. Behind a dash and a letter that takes no value stand letters
of more options. -/
def takeAttached (g : Grammar) (spec : OptionSpec) (short : Bool) (attached : Text) :
    Except ArgumentFault (List Taken) :=
  let ignored := ArgumentFault.ignoredValue spec.title attached
  if spec.takesValue then .ok [.option spec (valueOf attached)]
  else
    match attached with
    | [] => .error ignored
    | c :: r =>
      match if short then g.named? ("-" ++ [c]) else none with
      | none => .error ignored
      | some next =>
        let more : Except ArgumentFault (List Taken) :=
          if !r.isEmpty then g.takeAttached next true r
          else if next.takesValue then .error (.expectedValue next.title)
          else .ok [.option next none]
        more.map fun taken => .option spec none :: taken

/-- The operand that the arguments begin with, and the arguments after it. -/
def takeOperand? (g : Grammar) (args : Marked) : Option (List Text × Marked) :=
  let lead := args.takeWhile fun a => a.2 == .dashes
  match g.operand, args.drop lead.length with
  | .single _, (arg, .plain) :: rest =>
    let trail := rest.takeWhile fun a => a.2 == .dashes
    some ((lead ++ (arg, .plain) :: trail).map Prod.fst, rest.drop trail.length)
  | .command _, (_, .plain) :: _ => some (args.map Prod.fst, [])
  | _, _ => none

/-- Reads arguments; `waiting` says whether the operand is still to come. The first number bounds the
steps; the count of arguments is enough. -/
def readFrom (g : Grammar) : Nat → Bool → Marked → Reading
  | 0, _, args => { leftOver := args.map Prod.fst }
  | steps + 1, waiting, args =>
    let operand := if waiting then g.takeOperand? args else none
    let lead := args.takeWhile fun a => !a.2.isOption
    match args.drop lead.length with
    | [] =>
      match operand with
      | some (values, rest) => { taken := [.operand values], leftOver := rest.map Prod.fst }
      | none => { leftOver := args.map Prod.fst }
    | (arg, mark) :: rest =>
      match lead, operand with
      | _ :: _, some (values, rest) => (g.readFrom steps false rest).after [.operand values] []
      | _, _ =>
        let skipped := lead.map Prod.fst
        match mark with
        | .option (some f) =>
          match f.attached with
          | some attached =>
            match g.takeAttached f.spec (!f.name.startsWith dashes) attached with
            | .error fault => { leftOver := skipped, fault := some fault }
            | .ok taken => (g.readFrom steps waiting rest).after taken skipped
          | none =>
            if f.spec.takesValue then
              match rest with
              | (value, .plain) :: rest =>
                (g.readFrom steps waiting rest).after [.option f.spec (some value)] skipped
              | _ => { leftOver := skipped, fault := some (.expectedValue f.spec.title) }
            else (g.readFrom steps waiting rest).after [.option f.spec none] skipped
        | _ => (g.readFrom steps waiting rest).after [] (skipped ++ [arg])

def read (g : Grammar) (args : List Text) : Reading :=
  match g.markAll args with
  | .error fault => { fault := some fault }
  | .ok marked => g.readFrom (args.length + 1) true marked

end Grammar

end TreePlan.CommandLine
