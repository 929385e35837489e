import TreePlan.Failure

/-!
Owners and groups by token. A token of digits is a number; any other is the name of an account in the
register of a machine. No token means that the owner stays as it is.
-/

namespace TreePlan.Account

/-- The number that leaves an owner unchanged. -/
def unchanged : Int := -1

def root : Text := "root"

/-- The users and groups of a machine: the numbers that they have by name. -/
abbrev Register := AccountKind → Text → Option Int

/-- There is no account but that of `root`, a user and a group. -/
def sole : Register := fun _ name => if name = root then some 0 else none

def nameOf (accounts : Register) (kind : AccountKind) (token : Text) : Except Failure Int :=
  match Utf8.nameFault? token with
  | some (c, start, stop) => .error (.unencodable ⟨.utf8, c, start, stop⟩)
  | none =>
    if token.contains CodePoint.null then .error .nullByte
    else match accounts kind token with
      | some id => .ok id
      | none => .error (.unknownAccount kind token)

def isNumber (token : Text) : Bool := !token.isEmpty && token.all CodePoint.isDigit

def resolveIn (accounts : Register) (kind : AccountKind) : Option Text → Except Failure Int
  | none => .ok unchanged
  | some token =>
    if isNumber token then (Numeral.readInt token).mapError (Failure.numeral token)
    else nameOf accounts kind token

def resolve : AccountKind → Option Text → Except Failure Int := resolveIn sole

/-- The largest number an account can have; it too leaves an owner unchanged. -/
def idLimit : Int := 4294967295

/-- From here on a number is too large for any word. -/
def wordLimit : Int := 0x8000000000000000

/-- The owner to be set, if it is to change. A number that fits in a word but is none of an account
counts as too small. -/
def checked (kind : AccountKind) (id : Int) : Except Failure (Option Nat) :=
  if wordLimit ≤ id then .error (.idTooLarge kind)
  else if idLimit < id ∨ id < unchanged then .error (.idTooSmall kind)
  else if id = unchanged ∨ id = idLimit then .ok none
  else .ok (some id.toNat)

end TreePlan.Account
