import LoopSafety.DataType
import LoopSafety.Handle

/-! Why an analysis stops, and the text that says so. -/
namespace LoopSafety

/-- Why a construct is outside what the analysis covers. -/
inductive Obstacle where
  | arrayRank
  | negativeExtent (extent : Int64)
  | undeclaredAlias (target : String)
  | dangling (handle : Handle)
  | forwardReference (node : NodeId)
  | regionNotLoop
  | notAnAccess (kind : String)
  | logicalNegation
  | builtinArity (name : String) (given : Nat)
  | mathArity (name : String) (expected : Nat)
  | missingElse
  | unbounded (kind : String)
  | recursiveCall
  | callArity (name : String) (expected given : Nat)
  | zeroDivisor
  | indexCount (given dimensions : Nat)
  | notAStatement
  | notAnExpression (kind : String)
  | nestNotLoop (kind : String)
  deriving DecidableEq, Repr

def Obstacle.message : Obstacle → String
  | arrayRank => "arrays must have between 1 and 10 dimensions"
  | negativeExtent extent => "negative extent " ++ toString extent
  | undeclaredAlias target => "alias of undeclared array '" ++ target ++ "'"
  | dangling handle => "dangling " ++ handle.text
  | forwardReference node => "forward reference to " ++ node.text
  | regionNotLoop => "candidate region must be a for loop"
  | notAnAccess kind => "registered as an array access but is a " ++ kind
  | logicalNegation => "logical negation has no integer bound"
  | builtinArity name given => name ++ " expects 2 arguments, got " ++ toString given
  | mathArity name expected => name ++ " expects " ++ toString expected ++ " arguments"
  | missingElse => "conditional without else branch"
  | unbounded kind => kind ++ " cannot appear in a bounded expression"
  | recursiveCall => "recursive function call"
  | callArity name expected given =>
    name ++ " takes " ++ toString expected ++ " arguments, got " ++ toString given
  | zeroDivisor => "division by literal zero"
  | indexCount given dimensions =>
    toString given ++ " indices for a " ++ toString dimensions ++ "-dimensional array"
  | notAStatement => "statement cannot be expressed to the dependence oracle"
  | notAnExpression kind => kind ++ " is not an expression"
  | nestNotLoop kind => "dependence analysis needs a for loop, got a " ++ kind

/-- Why a file cannot be read or written, or a program not started. -/
inductive FileFault where
  | notFound | noDevice | tooManyArguments | denied | notADirectory | isADirectory | deviceFull
  | badChannel | nameTooLong | notText | nulByte
  deriving DecidableEq, Repr

def FileFault.reason : FileFault → String
  | notFound => "No such file or directory"
  | noDevice => "No such device or address"
  | tooManyArguments => "Argument list too long"
  | denied => "Permission denied"
  | notADirectory => "Not a directory"
  | isADirectory => "Is a directory"
  | deviceFull => "No space left on device"
  | badChannel => "Bad file descriptor"
  | nameTooLong => "File name too long"
  | notText => "stream did not contain valid UTF-8"
  | nulByte => "nul byte found in provided data"

/-- The number under which the system reports a fault, if it is the system that does. -/
def FileFault.code? : FileFault → Option Nat
  | notFound => some 2
  | noDevice => some 6
  | tooManyArguments => some 7
  | denied => some 13
  | notADirectory => some 20
  | isADirectory => some 21
  | deviceFull => some 28
  | badChannel => some 9
  | nameTooLong => some 36
  | notText | nulByte => none

def FileFault.message (f : FileFault) : String :=
  match f.code? with
  | some code => f.reason ++ " (os error " ++ toString code ++ ")"
  | none => f.reason

/-- How an external dependence oracle can let the analysis down. -/
inductive OracleFault where
  | notStarted (program : String) (fault : FileFault)
  | failed (program : String) (complaint : String)
  deriving DecidableEq, Repr

def OracleFault.message : OracleFault → String
  | notStarted program fault => "failed to run " ++ program ++ ": " ++ fault.message
  | failed program complaint => program ++ " failed: " ++ complaint

inductive Error where
  /-- A construct that the analysis does not cover. -/
  | unsupported (construct : String) (obstacle : Obstacle)
  /-- A check that was dropped is needed after all. -/
  | boundInvalidated
  | typeMismatch (expected found : DataType)
  | oracle (fault : OracleFault)
  | file (fault : FileFault)
  | malformed
  /-- A handle that points outside its table. -/
  | missing (handle : Handle)
  deriving DecidableEq, Repr

namespace Error

def message : Error → String
  | unsupported construct obstacle =>
    "unsupported construct `" ++ construct ++ "`: " ++ obstacle.message
  | boundInvalidated => "bound check invalidated a previously proven-safe access"
  | typeMismatch expected found =>
    "type mismatch: expected " ++ expected.name ++ ", found " ++ found.name
  | oracle fault => "dependence oracle failed: " ++ fault.message
  | file fault => "I/O error: " ++ fault.message
  | malformed => "malformed JSON"
  | missing handle => "no " ++ handle.text

/-- Everything but an invalidated bound ends the session. -/
def isFatal : Error → Bool
  | boundInvalidated => false
  | _ => true

end Error

end LoopSafety
