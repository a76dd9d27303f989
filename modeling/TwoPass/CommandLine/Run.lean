import TwoPass.CommandLine.Report

/-
  A run of the command: assemble one file and write its object program, then the listing and the
  symbols if they are asked for. Nothing is written unless the source assembles. What the command
  itself says is shown by its toolkit; files, progress lines and notices show names as they are.
-/

namespace TwoPass.CommandLine

structure Result where
  status : ExitStatus
  out : Text := []
  err : Text := []
  files : Store

/-- What commands leave behind: the session, what was printed and noticed, and the failure that
    stopped them, if one did. -/
structure Progress where
  session : Session
  printed : Text := []
  notices : List Notice := []
  failure : Option Failure := none

/-- Perform commands until one fails. -/
def performAll : Progress → List Command → Progress
  | p, [] => p
  | p, c :: cs =>
    let (session, reply) := p.session.perform c
    let p := { p with
      session
      printed := p.printed ++ reply.printed
      notices := p.notices ++ reply.notices }
    match reply.result with
    | .error failure => { p with failure := some failure }
    | .ok _ => performAll p cs

/-- The options in effect: those of the environment, overridden by the command line. -/
def Invocation.options (i : Invocation) (base : Options) : Options :=
  let o := { base with verbose := i.verbose }
  let o := match i.strict with
    | some b => o.setStrict b
    | none => o
  match i.maxAddress with
  | some n => { o with maxAddress := n }
  | none => o

/-- Where the object program goes. -/
def Invocation.objectPath (i : Invocation) : Text := i.output.getD (Path.objectPath i.input)

def Invocation.commands (i : Invocation) : List Command :=
  [.assembleFile i.input, .writeObject (some i.objectPath)] ++
    i.listing.toList.map .writeListing ++ i.symbols.toList.map .writeSymbols

/-- The closing lines of a verbose run, or why there are none: the length of the program has more
    digits than are converted. -/
def summary (a : Assembler) (program : ObjectProgram) : Except Text (List Text) :=
  let layout := a.layout
  let name : Text := if layout.name = [] then "(unnamed)" else layout.name
  match Decimal.write? layout.length with
  | none =>
    .error ("Exceeds the limit (" ++ Text.ofNat Decimal.digitLimit ++
      " digits) for integer string conversion; use sys.set_int_max_str_digits() to increase the" ++
      " limit")
  | some length =>
    .ok [
      "Assembly complete: " ++ name ++ " at " ++ Hex.signed 6 layout.load ++ ", " ++ length ++
        " bytes\n",
      Text.ofNat program.text.length ++ " text records, " ++
        Text.ofNat program.modifications.length ++ " modification records, " ++
        Text.ofNat layout.symbols.size ++ " symbols\n"]

def Invocation.run (i : Invocation) (toolkit : Toolkit) (environment : Environment)
    (files : Store) : Result :=
  let (base, notices) := Options.ofEnvironment environment
  let p := performAll
    { session := Session.start (i.options base) files, notices } i.commands
  let err := logged i.verbose p.notices
  let failed (status : ExitStatus) (out message : Text) : Result :=
    { status
      out
      err := err ++ report toolkit status i.verbose (some "Assembly") message
      files := p.session.files }
  match p.failure, p.session.assembler.program with
  | some failure, _ => failed failure.status p.printed failure.text
  | none, .error fault => failed (Failure.assembly fault).status p.printed fault.text
  | none, .ok program =>
    let out := p.printed ++ (if i.echo then toolkit.echo program.render else [])
    match if i.verbose then summary p.session.assembler program else .ok [] with
    | .error message => failed ErrorKind.other.status out message
    | .ok lines =>
      { status := .success
        out := out ++ lines.flatMap toolkit.echo
        err
        files := p.session.files }

/-- Run the command with the given arguments. -/
def run (toolkit : Toolkit) (args : List Text) (environment : Environment) (files : Store) :
    Result :=
  match toolkit.parse readLimit files args with
  | .error ending => { status := ending.status, out := ending.out, err := ending.err, files }
  | .ok invocation => invocation.run toolkit environment files

end TwoPass.CommandLine
