import CallCode.Identity
import CallCode.Position

/-!
# Errors of registration and lowering

Each error is recorded by its cause.  The wording is left to one function per
kind of error.
-/

namespace CallCode

/-- Why a type could not be registered. -/
inductive RegistrationError
  /-- A type of this name or identity is registered already. -/
  | duplicateType (name : String)
  /-- A superclass or interface of the type is not registered. -/
  | missingSupertype (name : String) (missing : Identity)
  deriving DecidableEq, Repr

/-- The name of the kind of a registration error. -/
def RegistrationError.kind : RegistrationError → String
  | .duplicateType .. => "DuplicateType"
  | .missingSupertype .. => "MissingSupertype"

/-- The wording of a registration error. -/
def RegistrationError.message : RegistrationError → String
  | .duplicateType name => "duplicate type: " ++ name
  | .missingSupertype name missing =>
      "type '" ++ name ++ "' refers to unregistered type " ++ missing.text

/-- Breaches of the contract between lowering and its caller. -/
inductive InternalFault
  /-- An operation needed more tracked operands than there are. -/
  | stackUnderflow
  /-- The tracked stack is lower than where the call started. -/
  | stackShrank
  | arityMismatch (arguments parameters : Nat)
  | anonymousArity (name : String) (parameters arguments : Nat)
  /-- A chained constructor call stands where a value is needed. -/
  | chainAsValue
  | switchHasNoArms
  | siteTableFull
  /-- A bounded site table has reached its limit. -/
  | sitesExhausted
  | foreignBody (body owner expected : String)
  /-- A fault that a collaborator of lowering words itself. -/
  | other (wording : String)
  deriving DecidableEq, Repr

/-- The wording of an internal fault. -/
def InternalFault.message : InternalFault → String
  | .stackUnderflow => "operand stack underflow"
  | .stackShrank => "operand stack shrank below call start"
  | .arityMismatch arguments parameters =>
      toString arguments ++ " arguments cannot bind to " ++
        toString parameters ++ " parameters"
  | .anonymousArity name parameters arguments =>
      "anonymous " ++ name ++ " constructor takes " ++ toString parameters ++
        " arguments, got " ++ toString arguments
  | .chainAsValue => "special constructor call used as a value"
  | .switchHasNoArms => "constructor switch has no arms"
  | .siteTableFull => "call-site table exceeds u16 slots"
  | .sitesExhausted => "call sites exhausted"
  | .foreignBody body owner expected =>
      "body " ++ body ++ " belongs to " ++ owner ++ ", not " ++ expected
  | .other wording => wording

/-- Why a call could not be lowered. -/
inductive LoweringError
  | unknownType (name : String) (position : Position)
  | unknownMethod (name : String) (position : Position)
  | noConstructors (className : String) (position : Position)
  /-- Two constructors of one class have the same dispatch key. -/
  | keyCollision (className first second : String) (position : Position)
  | tooManyArguments (count limit : Nat) (position : Position)
  | internal (fault : InternalFault)
  deriving DecidableEq, Repr

namespace LoweringError

/-- The name of the kind of an error. -/
def kind : LoweringError → String
  | .unknownType .. => "UnknownType"
  | .unknownMethod .. => "UnknownMethod"
  | .noConstructors .. => "NoConstructors"
  | .keyCollision .. => "FingerprintCollision"
  | .tooManyArguments .. => "TooManyArguments"
  | .internal .. => "Internal"

/-- Where the error is reported; an internal fault has no position. -/
def position : LoweringError → Position
  | .unknownType _ position => position
  | .unknownMethod _ position => position
  | .noConstructors _ position => position
  | .keyCollision _ _ _ position => position
  | .tooManyArguments _ _ position => position
  | .internal _ => .synthetic

/-- The wording of an error without its position. -/
def description : LoweringError → String
  | .unknownType name _ => "unknown type '" ++ name ++ "'"
  | .unknownMethod name _ => "unknown method '" ++ name ++ "'"
  | .noConstructors className _ =>
      "class '" ++ className ++ "' declares no constructors"
  | .keyCollision className first second _ =>
      "constructors " ++ first ++ " and " ++ second ++ " of '" ++ className ++
        "' share a dispatch fingerprint"
  | .tooManyArguments count limit _ =>
      "too many arguments (" ++ toString count ++ ", at most " ++
        toString limit ++ ")"
  | .internal fault => "internal error: " ++ fault.message

/-- The full wording of an error: all but internal faults name their position. -/
def message : LoweringError → String
  | .internal fault => "internal error: " ++ fault.message
  | error => "at " ++ error.position.text ++ ": " ++ error.description

end LoweringError

end CallCode
