import TwoPass.Assembly.Code
import TwoPass.Assembly.Listing
import TwoPass.Object.Program

/-
  The second pass: statements become object code. It follows the counter as the first pass did,
  checks that labels stand where the first pass put them, and stops at END. One START must come
  before END; what is listed up to a fault is kept with it.
-/

namespace TwoPass

/-- A fault of the second pass, with what was listed and noticed before it. -/
structure Broken where
  fault : Fault
  listing : List ListingEntry := []
  notices : List Notice := []
  deriving DecidableEq

/-- Code generation under way. -/
structure Generation where
  program : ObjectProgram := {}
  /-- The address of START, once it was met. -/
  load : Option Int := none
  counter : Int := 0
  listing : List ListingEntry := []
  notices : List Notice := []
  deriving DecidableEq

namespace Generation

def stop {α : Type} (g : Generation) : Except Fault α → Except Broken α
  | .ok a => .ok a
  | .error fault => .error { fault, listing := g.listing, notices := g.notices }

def list (g : Generation) (entry : ListingEntry) : Generation :=
  { g with listing := g.listing ++ [entry] }

/-- A label must stand at the address its own line was given in the table. -/
def checkPhase (g : Generation) (symbols : SymbolTable) (location : Location) (st : Statement) :
    Except Fault Unit :=
  match st.label with
  | none => .ok ()
  | some label =>
    match symbols.find? label with
    | none => .ok ()
    | some symbol =>
      if symbol.location = some location ∧ symbol.address ≠ g.counter then
        .error { cause := .phase label symbol.address g.counter, location := location }
      else .ok ()

/-- START: the header is written and the counter set. -/
def start (g : Generation) (final : Int) (line : Int) (st : Statement) :
    Except Broken Generation := do
  if g.load.isSome then g.stop (.error (st.fault .startRepeated))
  else
    let address ← g.stop st.startAddress
    return { g with
      program := g.program.setHeader
        { name := st.label.getD [], load := address, length := final - address }
      load := some address
      counter := address }.list { line, address := some address, text := st.text }

/-- END: the end record is written. -/
def finish (g : Generation) (location : Location) (st : Statement) : Except Broken Generation :=
  match g.load with
  | none => g.stop (.error (st.fault .endBeforeStart))
  | some load =>
    let g := g.list { line := location.line, address := some g.counter, text := st.text }
    .ok { g with
      program := g.program.setEnd load
      notices := g.notices ++ [.endReached location] }

/-- Any other statement: its code and the modification that goes with it are added. -/
def emit (g : Generation) (options : Options) (symbols : SymbolTable) (location : Location)
    (kind : LineKind) (st : Statement) : Except Broken Generation := do
  g.stop (g.checkPhase symbols location st)
  let (code, notices) ← g.stop (st.encode options location symbols)
  let program := if code = [] then g.program else g.program.addText code
  let modifications : List Object.Modification := st.relocation?.toList.map fun symbol =>
    { start := g.load.getD 0, halfBytes := Object.addressHalfBytes, symbol }
  let g := { g with
    program := program.addModifications modifications
    notices := g.notices ++ notices }.list
      { line := location.line, address := some g.counter, code, text := st.text }
  let next ← g.stop (st.next kind g.counter)
  return { g with counter := next }

/-- Take in a line. -/
def step (options : Options) (layout : Layout) (g : Generation) (line : Line) :
    Except Broken Generation := do
  let kind := LineKind.of line.raw
  match ← g.stop (Statement.read kind line.raw line.location) with
  | none =>
    return g.list { line := line.location.line, address := none, text := Text.dropLineEnd line.raw }
  | some st =>
    match st.operation with
    | .directive .start => g.start layout.final line.location.line st
    | .directive .finish => g.finish line.location st
    | _ => g.emit options layout.symbols line.location kind st

/-- Take in lines up to END. -/
def run (options : Options) (layout : Layout) (file : Text) :
    Generation → List Line → Except Broken Generation
  | g, [] => g.stop (.error { cause := .endMissing file })
  | g, line :: rest => do
    let g ← g.step options layout line
    if g.program.finish.isSome then return g else run options layout file g rest

end Generation

/-- The object program of a source whose layout is known. -/
def generate (options : Options) (layout : Layout) (file : Text) (lines : List Line) :
    Except Broken Generation :=
  Generation.run options layout file {} lines

end TwoPass
