import TreePlan.Encoding.Name
import TreePlan.Json.Reader

/-!
Why a single operation fails. A failure that the system, an account lookup or an encoding causes is
expected: a run reports it and stops. Any other leaves the run as it is.
-/

namespace TreePlan

/-- What the system refuses. -/
inductive SystemFault where
  | exists
  | notFound
  | notPermitted
  | accessDenied
  | notDirectory
  | isDirectory
  | nameTooLong
  | tooManyLinks
  | notSupported
deriving DecidableEq, Repr

namespace SystemFault

def code : SystemFault → Int
  | .exists => 17
  | .notFound => 2
  | .notPermitted => 1
  | .accessDenied => 13
  | .notDirectory => 20
  | .isDirectory => 21
  | .nameTooLong => 36
  | .tooManyLinks => 40
  | .notSupported => 95

def reason : SystemFault → Text
  | .exists => "File exists"
  | .notFound => "No such file or directory"
  | .notPermitted => "Operation not permitted"
  | .accessDenied => "Permission denied"
  | .notDirectory => "Not a directory"
  | .isDirectory => "Is a directory"
  | .nameTooLong => "File name too long"
  | .tooManyLinks => "Too many levels of symbolic links"
  | .notSupported => "Operation not supported"

/-- A place that cannot be there is no failure of the question what is there. -/
def isAbsence : SystemFault → Bool
  | .notFound | .notDirectory | .tooManyLinks => true
  | _ => false

def ofCode? (code : Int) : Option SystemFault :=
  [.exists, .notFound, .notPermitted, .accessDenied, .notDirectory, .isDirectory, .nameTooLong,
    .tooManyLinks, .notSupported].find? fun fault => fault.code = code

theorem ofCode?_code (fault : SystemFault) : ofCode? fault.code = some fault := by
  cases fault <;> rfl

end SystemFault

inductive AccountKind where
  | user
  | group
deriving DecidableEq, Repr

def AccountKind.title : AccountKind → Text
  | .user => "user"
  | .group => "group"

def AccountKind.idTitle : AccountKind → Text
  | .user => "uid"
  | .group => "gid"

/-- The sorts of failure that callers tell apart. A system failure may carry its number. -/
inductive FailureClass where
  | system (code : Option Int)
  | lookup
  | key
  | index
  | encoding
  | encodingRange
  | decodingRange
  | value
  | overflow
  | type
  | runtime
deriving DecidableEq, Repr

def FailureClass.isExpected : FailureClass → Bool
  | .system _ | .lookup | .key | .index | .encoding | .encodingRange | .decodingRange => true
  | _ => false

/-- Bad values and texts that do not decode count as errors of the values given. -/
def FailureClass.isValue : FailureClass → Bool
  | .encoding | .encodingRange | .decodingRange | .value => true
  | _ => false

def FailureClass.isSystem : FailureClass → Bool
  | .system _ => true
  | _ => false

inductive Failure where
  | system (fault : SystemFault)
  | unknownAccount (kind : AccountKind) (name : Text)
  | unencodable (fault : EncodingFault)
  | undecodable (fault : Utf8.DecodingFault)
  | encodingName (fault : NameFault)
  | numeral (token : Text) (fault : Numeral.Fault)
  | oversized (fault : Json.Fault)
  | nullByte
  | idTooLarge (kind : AccountKind)
  | idTooSmall (kind : AccountKind)
  | modeOutOfRange
  | limitTooLarge
  | unwritable (kind : Text)
  | linkLoop (path : Text)
  /-- A path was asked for and an option without a value given. -/
  | noPath
  /-- A number was asked for and an option without a value given. -/
  | noNumber
  | noRecord
  /-- A position that no machine word can hold. -/
  | positionTooFar
  /-- A failure of another world, with the reason that a report gives and its whole text. -/
  | foreign (kind : FailureClass) (reason : Text) (text : Text)
deriving DecidableEq, Repr

namespace Failure

def kind : Failure → FailureClass
  | .system fault => .system fault.code
  | .unknownAccount _ _ => .lookup
  | .unencodable _ => .encodingRange
  | .undecodable _ => .decodingRange
  | .encodingName (.unencodable _) => .encodingRange
  | .encodingName .embeddedNull => .value
  | .encodingName _ => .lookup
  | .numeral _ _ | .oversized _ | .nullByte => .value
  | .idTooLarge _ | .idTooSmall _ | .modeOutOfRange | .limitTooLarge => .overflow
  | .unwritable _ | .noPath | .noNumber => .type
  | .linkLoop _ => .runtime
  | .noRecord | .positionTooFar => .index
  | .foreign kind _ _ => kind

def isExpected (f : Failure) : Bool := f.kind.isExpected

/-- Quoted, but at most this long. -/
def quotedLimit : Nat := 200

/-- The whole text of a failure. -/
def text : Failure → Text
  | .system fault => fault.reason
  | .unknownAccount kind name => "Unknown " ++ kind.title ++ ": " ++ name
  | .unencodable fault => fault.message
  | .undecodable fault => fault.message
  | .encodingName fault => fault.message
  | .numeral _ (.tooLong n) => (Json.Fault.integerTooLong n).message
  | .numeral token .malformed =>
    "invalid literal for int() with base 10: " ++ token.quoted.take quotedLimit
  | .oversized fault => fault.message
  | .nullByte => "embedded null byte"
  | .idTooLarge kind => kind.idTitle ++ " is greater than maximum"
  | .idTooSmall kind => kind.idTitle ++ " is less than minimum"
  | .modeOutOfRange => "Python int too large to convert to C int"
  | .limitTooLarge => "Python int too large to convert to C ssize_t"
  | .unwritable kind => "Object of type " ++ kind ++ " is not JSON serializable"
  | .linkLoop path => "Symlink loop from " ++ path.quoted
  | .noPath => "expected str, bytes or os.PathLike object, not list"
  | .noNumber => "\x27<\x27 not supported between instances of \x27list\x27 and \x27int\x27"
  | .noRecord => "list index out of range"
  | .positionTooFar => "cannot fit 'int' into an index-sized integer"
  | .foreign _ _ text => text

/-- What a report of a failure says. -/
def reason : Failure → Text
  | .foreign _ reason _ => reason
  | f => f.text

end Failure

end TreePlan
