import TwoPass.Assembly.Options
import TwoPass.Source.Operand

/-
  The first pass: every line is given its address. The counter starts at zero and at each START
  anew, grows by the size of every statement, and is checked against the limit before every
  line. Labels are entered into the symbol table at the counter's value.
-/

namespace TwoPass

structure Layout where
  symbols : SymbolTable := {}
  /-- The address of the last START; zero if there is none. -/
  load : Int := 0
  /-- The counter behind the last line. -/
  final : Int := 0
  /-- The label of the last START. -/
  name : Text := []
  deriving DecidableEq

namespace Layout

def length (l : Layout) : Int := l.final - l.load

end Layout

/-- The load address of a START statement. -/
def Statement.startAddress (s : Statement) : Except Fault Int :=
  match s.operand with
  | none =>
    .error { cause := .missing "START load address", location := s.location,
             excerpt := some s.text }
  | some operand => placed s.location ((Operand.hexadecimal operand).map Int.ofNat)

/-- The counter behind a statement, from the counter before its line. -/
def Statement.next (s : Statement) (kind : LineKind) (counter : Int) : Except Fault Int :=
  placed s.location (s.operation.advance kind s.operand (counter + kind.width))

/-- A fault, with the notices given before it. -/
structure Interrupted where
  fault : Fault
  notices : List Notice := []
  deriving DecidableEq

/-- A layout under way. -/
structure Scan where
  layout : Layout := {}
  notices : List Notice := []
  deriving DecidableEq

namespace Scan

def stop {α : Type} (s : Scan) : Except Fault α → Except Interrupted α
  | .ok a => .ok a
  | .error fault => .error { fault, notices := s.notices }

/-- Enter the label of a statement at the counter. -/
def define (options : Options) (location : Location) (st : Statement) (label : Text) (s : Scan) :
    Except Fault Scan :=
  match s.layout.symbols.define
      { name := label, address := s.layout.final, location := location } with
  | (symbols, none) => .ok { s with layout := { s.layout with symbols } }
  | (_, some existing) =>
    if options.rejectDuplicates then
      .error { cause := .duplicateSymbol label existing.location, location := location,
               excerpt := some st.text }
    else
      .ok { s with notices := s.notices ++ [.duplicateIgnored location label existing.location] }

/-- Take in the statement of a line. -/
def statement (options : Options) (location : Location) (kind : LineKind) (st : Statement)
    (s : Scan) : Except Interrupted Scan := do
  if st.operation = .directive .start then
    let address ← s.stop st.startAddress
    return { s with layout := { s.layout with
      load := address, final := address, name := st.label.getD [] } }
  else
    let s ← match st.label with
      | none => pure s
      | some label => s.stop (s.define options location st label)
    let next ← s.stop (st.next kind s.layout.final)
    return { s with layout := { s.layout with final := next } }

/-- Take in a line. -/
def step (options : Options) (s : Scan) (line : Line) : Except Interrupted Scan := do
  if options.maxAddress ≤ s.layout.final then
    s.stop (.error { cause := .outOfBounds s.layout.final options.maxAddress,
                     location := line.location, excerpt := some (Text.dropLineEnd line.raw) })
  else
    let kind := LineKind.of line.raw
    match ← s.stop (Statement.read kind line.raw line.location) with
    | none => return s
    | some st => s.statement options line.location kind st

end Scan

/-- The layout of a source, with the notices given on the way. -/
def layOut (options : Options) (lines : List Line) : Except Interrupted Scan :=
  lines.foldlM (Scan.step options) {}

end TwoPass
