import TwoPass.Diagnostic.Location
import TwoPass.Number.Decimal
import TwoPass.Source.Operation

/-
  Why assembling stops. A `Cause` is what went wrong, a `Fault` adds the place and the source
  line, and a `Diagnostic` is the report: a headline, the source line with a mark under the
  column, and a hint.
-/

namespace TwoPass

/-- The kinds of report, coarser than the causes. -/
inductive Category
  | general
  | malformed
  | missing
  | unknownInstruction
  | numberFormat
  | operandLength
  | directive
  | memoryBounds
  | undefinedSymbol
  | duplicateSymbol
  | phase
  deriving DecidableEq

structure Diagnostic where
  category : Category
  message : Text
  hint : Option Text := none
  location : Option Location := none
  excerpt : Option Text := none
  deriving DecidableEq

namespace Diagnostic

def headline (d : Diagnostic) : Text :=
  match d.location with
  | some l => l.text ++ ": error: " ++ d.message
  | none => "error: " ++ d.message

/-- The source line, and under it a mark at the column. -/
def excerptLines (d : Diagnostic) : List Text :=
  match d.excerpt, d.location with
  | some line, some l =>
    ("    " ++ line) ::
      if 0 < l.column then [List.replicate (3 + l.column).toNat ' ' ++ ['^']] else []
  | _, _ => []

def hintLines (d : Diagnostic) : List Text :=
  match d.hint with
  | none => []
  | some [] => []
  | some h => ["hint: " ++ h]

def text (d : Diagnostic) : Text :=
  Text.join ['\n'] (d.headline :: d.excerptLines ++ d.hintLines)

end Diagnostic

inductive Radix
  | decimal
  | hexadecimal
  deriving DecidableEq

def Radix.name : Radix → Text
  | .decimal => "decimal"
  | .hexadecimal => "hexadecimal"

inductive Cause
  | missing (what : Text)
  | unknownInstruction (name : Text)
  | notANumber (text : Text) (radix : Radix)
  | notByteLiteral (operand : Text)
  | unterminatedLiteral (operand : Text)
  | notAscii (operand : Text)
  | operandTooLong (operand : Text) (limit : Int)
  | wordOutOfRange (value : Int)
  | negativeCount (directive : Directive) (count : Int)
  | startRepeated
  | endBeforeStart
  | endMissing (file : Text)
  | outOfBounds (address limit : Int)
  | undefinedSymbol (name : Text) (similar : List Text)
  | duplicateSymbol (name : Text) (first : Option Location)
  | phase (name : Text) (first second : Int)
  | nothingAssembled
  | noOutputPath
  /-- A decimal number of more digits than are converted. -/
  | tooManyDigits (count : Nat)
  /-- A statement was asked of a line that has no field. -/
  | noFields
  deriving DecidableEq

namespace Cause

def category : Cause → Category
  | .missing _ => .missing
  | .unknownInstruction _ => .unknownInstruction
  | .notANumber _ _ => .numberFormat
  | .notByteLiteral _ => .malformed
  | .unterminatedLiteral _ => .malformed
  | .notAscii _ => .malformed
  | .operandTooLong _ _ => .operandLength
  | .negativeCount _ _ => .directive
  | .startRepeated => .directive
  | .endBeforeStart => .directive
  | .endMissing _ => .directive
  | .outOfBounds _ _ => .memoryBounds
  | .undefinedSymbol _ _ => .undefinedSymbol
  | .duplicateSymbol _ _ => .duplicateSymbol
  | .phase _ _ _ => .phase
  | _ => .general

def message : Cause → Text
  | .missing what => "missing " ++ what
  | .unknownInstruction name => "unknown instruction '" ++ name ++ "'"
  | .notANumber text radix => "'" ++ text ++ "' is not a valid " ++ radix.name ++ " number"
  | .notByteLiteral operand => "BYTE operand must be C'...' or X'...', got '" ++ operand ++ "'"
  | .unterminatedLiteral operand => "unterminated literal '" ++ operand ++ "'"
  | .notAscii operand => "character literal " ++ operand ++ " is not ASCII"
  | .operandTooLong operand limit =>
    "operand is " ++ Text.ofNat operand.length ++ " characters long, limit is " ++
      Text.ofInt limit
  | .wordOutOfRange value => "WORD value " ++ Text.ofInt value ++ " does not fit in 24 bits"
  | .negativeCount directive count =>
    directive.name ++ " count must not be negative, got " ++ Text.ofInt count
  | .startRepeated => "Starting address was already defined"
  | .endBeforeStart => "END directive without a preceding START"
  | .endMissing file => "missing END directive in " ++ file
  | .outOfBounds address limit =>
    "Memory out of bounds: address " ++ Hex.signed 4 address ++ " exceeds " ++ Hex.signed 4 limit
  | .undefinedSymbol name _ => "undefined symbol '" ++ name ++ "'"
  | .duplicateSymbol name _ => "duplicate symbol '" ++ name ++ "'"
  | .phase name first second =>
    "phase error at '" ++ name ++ "': pass 1 address " ++ Hex.signed 4 first ++
      ", pass 2 address " ++ Hex.signed 4 second
  | .nothingAssembled => "no program has been assembled"
  | .noOutputPath => "no output path given for string input"
  | .tooManyDigits count =>
    "Exceeds the limit (" ++ Text.ofNat Decimal.digitLimit ++
      " digits) for integer string conversion: value has " ++ Text.ofNat count ++
      " digits; use sys.set_int_max_str_digits() to increase the limit"
  | .noFields => "line has no fields"

def hint : Cause → Option Text
  | .operandTooLong _ _ => some "split the literal over several BYTE directives"
  | .endMissing _ => some "finish the program with 'END <first instruction>'"
  | .undefinedSymbol _ [] => none
  | .undefinedSymbol _ similar =>
    some ("did you mean " ++
      Text.join ", " ((similar.take 3).map fun s => "'" ++ s ++ "'") ++ "?")
  | .duplicateSymbol name (some l) => some ("'" ++ name ++ "' was first defined at " ++ l.text)
  | _ => none

/-- Whether the cause makes an assembler error, worded as a diagnostic with the place in the source
    if it has one. The others are errors of a conversion that assembling relies on. -/
def isDiagnosed : Cause → Bool
  | .tooManyDigits _ => false
  | .noFields => false
  | _ => true

end Cause

structure Fault where
  cause : Cause
  location : Option Location := none
  excerpt : Option Text := none
  deriving DecidableEq

namespace Fault

def diagnostic (f : Fault) : Diagnostic :=
  { category := f.cause.category, message := f.cause.message, hint := f.cause.hint,
    location := f.location, excerpt := f.excerpt }

def text (f : Fault) : Text :=
  if f.cause.isDiagnosed then f.diagnostic.text else f.cause.message

end Fault

/-- A cause found in an operand is reported at the statement, without its text. -/
def placed {α : Type} (location : Option Location) : Except Cause α → Except Fault α
  | .ok a => .ok a
  | .error cause => .error { cause, location }

end TwoPass
