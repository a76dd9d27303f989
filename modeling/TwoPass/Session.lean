import TwoPass.Assembly.Run
import TwoPass.Files.Store
import TwoPass.Object.File
import TwoPass.Source.File

/-
  An assembler in use. It keeps its options, the last assembly with its listing, and the last
  source file; commands assemble sources and write results into a store of files. A failed
  assembly leaves no program behind.
-/

namespace TwoPass

inductive Failure
  | assembly (fault : Fault)
  | objectFile (fault : Object.FileFault)
  | file (fault : FileFault)
  | decoding (fault : Utf8.Fault)
  | setting (fault : SettingFault)
  deriving DecidableEq

def Failure.text : Failure → Text
  | .assembly fault => fault.text
  | .objectFile fault => fault.text
  | .file fault => fault.text
  | .decoding fault => fault.text
  | .setting fault => fault.message

/-- The answer to a command, with what was printed and noticed. -/
structure Reply (α : Type) where
  result : Except Failure α
  printed : Text := []
  notices : List Notice := []

structure Assembler where
  options : Options := {}
  assembly : Option Assembly := none
  listing : List ListingEntry := []
  /-- The path of the last source file, whether or not it could be read. -/
  source : Option Text := none

namespace Assembler

def program (a : Assembler) : Except Fault ObjectProgram :=
  match a.assembly with
  | some done => .ok done.program
  | none => .error { cause := .nothingAssembled }

def objectText (a : Assembler) : Except Fault Text := a.program.map ObjectProgram.render

/-- The layout of the last assembly; empty if there is none. -/
def layout (a : Assembler) : Layout := (a.assembly.map Assembly.layout).getD {}

def symbols (a : Assembler) : SymbolTable := a.layout.symbols

def listingText (a : Assembler) : Text := Listing.render a.listing a.symbols

/-- Where the object program of the last source file goes. -/
def defaultPath (a : Assembler) : Option Text := a.source.map Path.objectPath

/-- The assembler after a source was assembled. -/
def after (a : Assembler) (o : Outcome) : Assembler :=
  { a with assembly := o.result.toOption, listing := o.listing }

/-- A line for those who want to know what is done. -/
def say (a : Assembler) (line : Text) : Text := if a.options.verbose then line ++ ['\n'] else []

end Assembler

inductive Command
  | assembleText (source file : Text)
  | assembleFile (path : Text)
  | writeObject (path : Option Text)
  | writeListing (path : Text)
  | writeSymbols (path : Text)

inductive Answer
  | assembled (program : ObjectProgram)
  | written (path : Text)
  | done
  deriving DecidableEq

/-- An assembler and the files it works on. -/
structure Session where
  assembler : Assembler := {}
  files : Store := {}

namespace Session

def start (options : Options) (files : Store) : Session := { assembler := { options }, files }

/-- A session for options that are set by name. -/
def open? (settings : List (Text × Setting)) (files : Store) : Except SettingFault Session :=
  (({} : Options).setAll settings).map fun options => start options files

def outcomeReply (o : Outcome) (printed : Text) : Reply Answer :=
  { result :=
      match o.result with
      | .ok done => .ok (.assembled done.program)
      | .error fault => .error (.assembly fault)
    printed
    notices := o.notices }

def assembleText (s : Session) (source file : Text) : Session × Reply Answer :=
  let o := TwoPass.assembleText s.assembler.options file source
  ({ s with assembler := s.assembler.after o },
    outcomeReply o (s.assembler.say "Assembling from string..."))

/-- What comes of a source whose reading stopped: a fault in the lines before that is met first. -/
def brokenReply (options : Options) (path : Text) (lines : List Text) (fault : Utf8.Fault)
    (printed : Text) : Reply Answer :=
  match layOut options (numberLines path lines) with
  | .error i => { result := .error (.assembly i.fault), printed, notices := i.notices }
  | .ok scan => { result := .error (.decoding fault), printed, notices := scan.notices }

/-- A source that cannot be opened leaves the last assembly; one that is no text does not. -/
def assembleFile (s : Session) (path : Text) : Session × Reply Answer :=
  let path := Path.normalize path
  let a := { s.assembler with source := some path }
  let printed := a.say ("Assembling " ++ path ++ "...")
  match s.files.read path with
  | .error fault => ({ s with assembler := a }, { result := .error (.file fault), printed })
  | .ok bytes =>
    match SourceFile.ofBytes bytes with
    | { lines, fault := none } =>
      let o := assemble a.options path lines
      ({ s with assembler := a.after o }, outcomeReply o printed)
    | { lines, fault := some fault } =>
      ({ s with assembler := { a with assembly := none, listing := [] } },
        brokenReply a.options path lines fault printed)

/-- Write a text to a file, and say so. -/
def writeFile (s : Session) (path text said : Text) (answer : Answer) : Session × Reply Answer :=
  match s.files.writeText path text with
  | .error fault => (s, { result := .error (.file fault) })
  | .ok files => ({ s with files }, { result := .ok answer, printed := s.assembler.say said })

def writeObject (s : Session) (path : Option Text) : Session × Reply Answer :=
  match path.or s.assembler.defaultPath with
  | none => (s, { result := .error (.assembly { cause := .noOutputPath }) })
  | some path =>
    let path := Path.normalize path
    match s.assembler.objectText with
    | .error fault => (s, { result := .error (.assembly fault) })
    | .ok text => s.writeFile path text ("Wrote " ++ path) (.written path)

def writeListing (s : Session) (path : Text) : Session × Reply Answer :=
  s.writeFile path s.assembler.listingText ("Wrote listing to " ++ path) .done

def writeSymbols (s : Session) (path : Text) : Session × Reply Answer :=
  s.writeFile path (Listing.symbolFile s.assembler.symbols) ("Wrote symbols to " ++ path) .done

def perform (s : Session) : Command → Session × Reply Answer
  | .assembleText source file => s.assembleText source file
  | .assembleFile path => s.assembleFile path
  | .writeObject path => s.writeObject path
  | .writeListing path => s.writeListing path
  | .writeSymbols path => s.writeSymbols path

/-- Read an object file back. -/
def readObject (s : Session) (path : Text) : Except Failure ObjectFile :=
  match s.files.read (Path.normalize path) with
  | .error fault => .error (.file fault)
  | .ok bytes =>
    match Utf8.decode bytes with
    | .error fault => .error (.decoding fault)
    | .ok text => (ObjectFile.parse text).mapError .objectFile

end Session

/-- Assemble a source with an assembler of its own; the answer is the object text. -/
def assembleTextOnce (settings : List (Text × Setting)) (source file : Text) : Reply Text :=
  match Session.open? settings {} with
  | .error fault => { result := .error (.setting fault) }
  | .ok s =>
    let (s, reply) := s.assembleText source file
    { reply with result := reply.result.bind fun _ => s.assembler.objectText.mapError .assembly }

/-- Assemble a file with an assembler of its own and write its object program; the answer is the
    path written. -/
def assembleFileOnce (settings : List (Text × Setting)) (files : Store) (path : Text)
    (output : Option Text) : Store × Reply Answer :=
  match Session.open? settings files with
  | .error fault => (files, { result := .error (.setting fault) })
  | .ok s =>
    let (s, first) := s.assembleFile path
    match first.result with
    | .error _ => (s.files, first)
    | .ok _ =>
      let (s, second) := s.writeObject output
      (s.files, { second with
        printed := first.printed ++ second.printed
        notices := first.notices ++ second.notices })

end TwoPass
