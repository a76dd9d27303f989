import TwoPass.CommandLine.Report
import TwoPass.Text.Plain

/-
  A toolkit for the command where no other is at hand: a reader of command lines, and plain text to
  show. Options and the input file stand in any order, short flags may be joined, a value may be
  joined to its option or follow it, and `--` ends the options. What the reader refuses is put into
  words by whoever uses it.
-/

namespace TwoPass.CommandLine

inductive UsageFault
  | noSuchOption (name : Text)
  | valueMissing (name : Text)
  | valueRefused (name : Text)
  | inputMissing
  | extraArguments (extra : List Text)
  | noSuchFile (path : Text)
  /-- The input, or the value of an option. -/
  | isDirectory (v : Option Valued) (path : Text)
  | notAnAddress (message : Text)
  deriving DecidableEq

/-- Why a command line does not call the command. -/
inductive Refusal
  | version
  | help
  | mistake (fault : UsageFault)
  deriving DecidableEq

/-- The items in one argument, and the option at its end that still needs a value, with the name
    it was given by. -/
structure Reading where
  items : List Item := []
  pending : Option (Valued × Text) := none

/-- Short options joined behind one dash. A value takes all that follows it. -/
def readCluster : Text → Except UsageFault Reading
  | [] => .ok {}
  | c :: cs =>
    match Opt.short.lookup c with
    | none => .error (.noSuchOption ['-', c])
    | some (.switch s) => (readCluster cs).map fun r => { r with items := .switch s :: r.items }
    | some (.valued v) =>
      if cs = [] then .ok { pending := some (v, ['-', c]) } else .ok { items := [.value v cs] }

/-- The name of a long option, and the value joined to it by an equals sign. -/
def splitValue (arg : Text) : Text × Option Text :=
  (arg.takeWhile (· ≠ '='), (arg.dropWhile (· ≠ '=')).tail?)

def readOption (arg : Text) : Except UsageFault Reading :=
  let (name, value) := splitValue arg
  match Opt.long.lookup name, value with
  | some (.valued v), some text => .ok { items := [.value v text] }
  | some (.valued v), none => .ok { pending := some (v, name) }
  | some (.switch _), some _ => .error (.valueRefused name)
  | some (.switch s), none => .ok { items := [.switch s] }
  | none, _ =>
    if arg.take 2 = ['-', '-'] then .error (.noSuchOption name) else readCluster (arg.drop 1)

def isOption : Text → Bool
  | '-' :: _ :: _ => true
  | _ => false

/-- The items of a command line in order. -/
def readItems : List Text → Except UsageFault (List Item)
  | [] => .ok []
  | arg :: rest =>
    if arg = ['-', '-'] then .ok (rest.map .argument)
    else if isOption arg then
      match readOption arg with
      | .error fault => .error fault
      | .ok { items, pending := none } => (readItems rest).map (items ++ ·)
      | .ok { items, pending := some (v, name) } =>
        match rest with
        | [] => .error (.valueMissing name)
        | text :: rest => (readItems rest).map fun more => items ++ .value v text :: more
    else (readItems rest).map (.argument arg :: ·)

/-- The paths a command line may read or write. -/
def namedPaths (args : List Text) : List Text :=
  match readItems args with
  | .error _ => []
  | .ok items =>
    arguments items ++ (arguments items).map (fun p => Path.objectPath (Path.normalize p)) ++
      [Valued.output, .listing, .symbols].filterMap fun v => lastValue v items

/-- An input must be a file. -/
def checkInput (files : Store) (path : Text) : Except UsageFault Text :=
  match files.at? path with
  | none => .error (.noSuchFile path)
  | some .directory => .error (.isDirectory none path)
  | some (.file _) => .ok (Path.normalize path)

/-- An output must not be a directory. -/
def checkOutput (files : Store) (items : List Item) (v : Valued) :
    Except UsageFault (Option Text) :=
  match lastValue v items with
  | none => .ok none
  | some path =>
    match files.at? path with
    | some .directory => .error (.isDirectory (some v) path)
    | _ => .ok (some (Path.normalize path))

def checkLimit (readLimit : Text → Except Text Int) (items : List Item) :
    Except UsageFault (Option Int) :=
  ((lastValue .maxAddress items).mapM readLimit).mapError .notAnAddress

/-- Options are checked in the order they are given, each by its last value. -/
def checkOptions (readLimit : Text → Except Text Int) (files : Store) (items : List Item) :
    Except UsageFault Unit :=
  items.forM fun
    | .value .maxAddress _ => (checkLimit readLimit items).map fun _ => ()
    | .value v _ => (checkOutput files items v).map fun _ => ()
    | _ => .ok ()

/-- What items call the command with. Options are checked before the input. -/
def readInvocation (readLimit : Text → Except Text Int) (files : Store) (items : List Item) :
    Except UsageFault Invocation := do
  checkOptions readLimit files items
  match arguments items with
  | [] => .error .inputMissing
  | path :: extra =>
    let input ← checkInput files path
    let output ← checkOutput files items .output
    let listing ← checkOutput files items .listing
    let symbols ← checkOutput files items .symbols
    let maxAddress ← checkLimit readLimit items
    if extra ≠ [] then .error (.extraArguments extra)
    else
      return { input, output, listing, symbols, maxAddress, strict := lastStrict items,
               echo := hasSwitch .echo items, verbose := hasSwitch .verbose items }

/-- Whichever of the two was asked for first. -/
def versionOrHelp (items : List Item) : Option Refusal :=
  items.findSome? fun
    | .switch .version => some .version
    | .switch .help => some .help
    | _ => none

/-- What a command line calls the command with, if it does. -/
def read (readLimit : Text → Except Text Int) (files : Store) (args : List Text) :
    Except Refusal Invocation := do
  let items ← (readItems args).mapError .mistake
  match versionOrHelp items with
  | some refusal => .error refusal
  | none => (readInvocation readLimit files items).mapError .mistake

/-- A toolkit that reads command lines so and shows plain text. -/
def Toolkit.plain (word : Refusal → Ending) (trace : Text → Text) : Toolkit where
  parse readLimit files args := (read readLimit files args).mapError word
  echo := Text.plain
  trace := trace

end TwoPass.CommandLine
