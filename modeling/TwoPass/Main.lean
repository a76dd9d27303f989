import TwoPass.CommandLine.Reader
import TwoPass.CommandLine.Run

/-
  The command itself. The files that the arguments name are read into a store, the run is
  computed on it, and the files that it changed are written.
-/

open TwoPass

def usageLine : Text := "Usage: sicasm [OPTIONS] INPUT_FILE\n"

def helpText : Text :=
  usageLine ++
    "\nAssemble SIC source code into an object program.\n\n" ++
    "  -o, --output FILE        Output object file (default: INPUT_FILE.obj)\n" ++
    "  -l, --listing FILE       Generate listing file\n" ++
    "  -s, --symbols FILE       Generate symbol file\n" ++
    "  --strict / --no-strict   Reject undefined operand symbols and duplicate labels\n" ++
    "                           instead of warning. Default: SICASM_STRICT or off.\n" ++
    "  --max-address ADDRESS    Hex address at which assembly aborts. Default: 7FFF.\n" ++
    "  -e, --echo               Print the object records to standard output\n" ++
    "  -v, --verbose            Verbose output\n" ++
    "  --version                Show the version\n" ++
    "  --help                   Show this text\n"

/-- What is said where the command is not called. -/
def ending : CommandLine.Refusal → CommandLine.Ending
  | .version => { status := .success, out := "sicasm, version 1.0.0\n" }
  | .help => { status := .success, out := helpText }
  | .mistake _ => { status := .invalidArguments, err := usageLine }

/-- What is on disk at a path. -/
def nodeOnDisk (path : Text) : IO (Option Node) := do
  try
    let real ← IO.FS.realPath (String.ofList path)
    if ← real.isDir then return some .directory
    else
      let content ← IO.FS.readBinFile real
      return some (.file content.toList)
  catch _ => return none

/-- Put what is on disk at a path into the store; if nothing is, the directory it would be in. -/
def loadPath (files : Store) (path : Text) : IO Store := do
  match ← nodeOnDisk path with
  | some node => return files.put path node
  | none =>
    let directory := (path.reverse.dropWhile (· ≠ '/')).reverse
    match ← nodeOnDisk directory with
    | some .directory => return files.put directory .directory
    | _ => return files

def main (args : List String) : IO UInt32 := do
  let args := args.map String.toList
  let strict ← IO.getEnv "SICASM_STRICT"
  let limit ← IO.getEnv "SICASM_MAX_ADDRESS"
  let environment : Environment :=
    { strict := strict.map String.toList, maxAddress := limit.map String.toList }
  let files ← (CommandLine.namedPaths args).foldlM loadPath {}
  let result := CommandLine.run (.plain ending fun _ => []) args environment files
  for (place, content) in result.files.changedSince files do
    IO.FS.writeBinFile (String.ofList (Text.join ['/'] place)) (ByteArray.mk content.toArray)
  IO.print (String.ofList result.out)
  IO.eprint (String.ofList result.err)
  return result.status.code.toUInt32
