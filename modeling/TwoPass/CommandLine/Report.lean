import TwoPass.CommandLine.Arguments
import TwoPass.Session

/-
  How a run of the command ends: its exit status and what it says about a failure. Reading the
  arguments, showing a text and tracing a failure are not the command's own work: it is given a
  `Toolkit` for them.
-/

namespace TwoPass

inductive ExitStatus
  | success
  | buildError
  | invalidArguments
  | internalError
  deriving DecidableEq

def ExitStatus.code : ExitStatus → Nat
  | .success => 0
  | .buildError => 1
  | .invalidArguments => 2
  | .internalError => 3

/-- The kinds of error that a run can end with. -/
inductive ErrorKind
  /-- A fault in a source or an object file. -/
  | build
  /-- An argument that is refused. -/
  | argument
  /-- A file that cannot be opened or written. -/
  | file
  /-- Anything else. -/
  | other
  deriving DecidableEq

/-- Faults in a source or an object file are the user's to mend, as are arguments and files that
    cannot be opened; anything else is not. -/
def ErrorKind.status : ErrorKind → ExitStatus
  | .build => .buildError
  | .argument => .invalidArguments
  | .file => .invalidArguments
  | .other => .internalError

/-- A text that cannot be converted, or a path that is none, is no fault of the source and none of
    a file. -/
def Failure.kind : Failure → ErrorKind
  | .assembly fault => if fault.cause.isDiagnosed then .build else .other
  | .objectFile _ => .build
  | .file fault => if fault.reason = .nullCharacter then .other else .file
  | .decoding _ => .other
  | .setting _ => .other

def Failure.status (f : Failure) : ExitStatus := f.kind.status

namespace CommandLine

/-- The end of a run that does not get to the command. -/
structure Ending where
  status : ExitStatus
  out : Text := []
  err : Text := []
  deriving DecidableEq

/-- What the command is built on. -/
structure Toolkit where
  /-- Call the command as the arguments ask, or end the run, as for help or a mistake in them. The
      value of `--max-address` is read by the function that is given. -/
  parse : (readLimit : Text → Except Text Int) → Store → List Text → Except Ending Invocation
  /-- A text as it is shown. -/
  echo : Text → Text
  /-- Where a failure with this message came from. -/
  trace : Text → Text

/-- What is said about a failure. Build errors may name the activity that failed; internal errors
    are traced for those who want to know what is done. -/
def report (toolkit : Toolkit) (status : ExitStatus) (verbose : Bool) (activity : Option Text)
    (message : Text) : Text :=
  match status with
  | .success => []
  | .buildError =>
    let opening : Text :=
      match activity with
      | some (c :: cs) => (c :: cs) ++ " error: "
      | _ => "Error: "
    toolkit.echo (opening ++ message ++ ['\n'])
  | .invalidArguments => toolkit.echo ("Error: " ++ message ++ ['\n'])
  | .internalError =>
    toolkit.echo ("Internal error: " ++ message ++ ['\n']) ++
      (if verbose then toolkit.trace message else [])

def levelName : Level → Text
  | .debug => "DEBUG"
  | .warning => "WARNING"

/-- The notices as they are logged; progress is logged only to those who ask for detail. -/
def logged (verbose : Bool) (notices : List Notice) : Text :=
  (notices.filter fun n => verbose || n.isWarning).flatMap fun n =>
    levelName n.level ++ ": " ++ n.text ++ ['\n']

end CommandLine

end TwoPass
