import TwoPass.Assembly.Notice
import TwoPass.Machine.Mnemonic
import TwoPass.Number.HexLiteral

/-
  How strict assembling is and where it stops. Options are set by name or taken from the
  environment.
-/

namespace TwoPass

structure Options where
  /-- An operand that names no symbol is a fault, not address zero. -/
  rejectUndefined : Bool := false
  /-- A second definition of a label is a fault, not ignored. -/
  rejectDuplicates : Bool := false
  /-- The counter value at which assembling stops. -/
  maxAddress : Int := topAddress
  /-- Say what is being done. -/
  verbose : Bool := false
  deriving DecidableEq

/-- The value given for an option. -/
inductive Setting
  | flag (b : Bool)
  | number (n : Int)
  deriving DecidableEq

namespace Setting

def toFlag : Setting → Bool
  | .flag b => b
  | .number n => n ≠ 0

def toNumber : Setting → Int
  | .flag b => if b then 1 else 0
  | .number n => n

end Setting

inductive SettingFault
  | unknown (name : Text)
  | readOnly (name : Text)
  deriving DecidableEq

def SettingFault.message : SettingFault → Text
  | .unknown name => "unknown assembler option '" ++ name ++ "'"
  | .readOnly name => "option '" ++ name ++ "' cannot be set"

/-- The values the environment gives. -/
structure Environment where
  strict : Option Text := none
  maxAddress : Option Text := none

namespace Options

def isStrict (o : Options) : Bool := o.rejectUndefined && o.rejectDuplicates

def setStrict (o : Options) (b : Bool) : Options :=
  { o with rejectUndefined := b, rejectDuplicates := b }

/-- Set one option by name. Strictness follows from the two rejections and is not set itself; the
    name of the environment reader is accepted and changes nothing. -/
def set (o : Options) (name : Text) (value : Setting) : Except SettingFault Options :=
  if name = "reject_undefined_symbols".toList then .ok { o with rejectUndefined := value.toFlag }
  else if name = "reject_duplicate_symbols".toList then
    .ok { o with rejectDuplicates := value.toFlag }
  else if name = "max_address".toList then .ok { o with maxAddress := value.toNumber }
  else if name = "verbose".toList then .ok { o with verbose := value.toFlag }
  else if name = "from_env".toList then .ok o
  else if name = "strict".toList then .error (.readOnly name)
  else .error (.unknown name)

/-- Set options one after the other. -/
def setAll (o : Options) (settings : List (Text × Setting)) : Except SettingFault Options :=
  settings.foldlM (fun o s => o.set s.1 s.2) o

/-- Whether a word of the environment asks for strictness. -/
def asksStrict (t : Text) : Bool :=
  (["1", "true", "yes"].map String.toList).contains ((Text.trim t).map Char.toLower)

/-- The default options as the environment changes them. A limit that is no number is ignored. -/
def ofEnvironment (e : Environment) : Options × List Notice :=
  let o : Options := ({} : Options).setStrict (e.strict.any asksStrict)
  match e.maxAddress with
  | none => (o, [])
  | some [] => (o, [])
  | some value =>
    match HexLiteral.read? value with
    | some n => ({ o with maxAddress := n }, [])
    | none => (o, [.invalidLimit value])

end Options

end TwoPass
