import TwoPass.Object.Program
import TwoPass.Text.Lines

/-
  Object files read back. The lines that are not empty must be one header, text records,
  modification records and one end record, in this order.
-/

namespace TwoPass

namespace Object

inductive FileCause
  | unknownRecord (letter : Char)
  | afterEnd
  | outOfOrder (letter : Char)
  | badRecord (fault : RecordFault)
  | headerMissing
  | endMissing
  deriving DecidableEq

def FileCause.message : FileCause → Text
  | .unknownRecord letter => "unknown record type '" ++ [letter] ++ "'"
  | .afterEnd => "record after End record"
  | .outOfOrder letter => "'" ++ [letter] ++ "' record out of order"
  | .badRecord fault => fault.message
  | .headerMissing => "missing Header record"
  | .endMissing => "missing End record"

/-- A message with the number of the line it is about. -/
def atLine (line : Option Int) (message : Text) : Text :=
  match line with
  | some n => "line " ++ Text.ofInt n ++ ": " ++ message
  | none => message

structure FileFault where
  cause : FileCause
  line : Option Nat := none
  deriving DecidableEq

def FileFault.text (f : FileFault) : Text :=
  atLine (f.line.map fun n => (n : Int)) f.cause.message

end Object

open Object

/-- A decoded object file. -/
structure ObjectFile where
  header : Header
  text : List TextRecord := []
  modifications : List Modification := []
  finish : EndRecord
  deriving DecidableEq

namespace ObjectFile

/-- What has been read of a file: a program, and the rank of its last record. -/
structure Reader where
  program : ObjectProgram := {}
  rank : Nat := 0

/-- Take in a record of a known kind. -/
def Reader.accept (r : Reader) (kind : RecordKind) (line : Text) :
    Except RecordFault ObjectProgram :=
  match kind with
  | .header => (Header.read line).map r.program.setHeader
  | .text => (TextRecord.read line).map fun t => r.program.addText t.code
  | .modification => (Modification.read line).map fun m => r.program.addModifications [m]
  | .finish => (EndRecord.read line).map fun e => r.program.setEnd e.entry

/-- Take in a line that is not empty. -/
def Reader.step (r : Reader) (letter : Char) (line : Text) : Except FileCause Reader :=
  match RecordKind.ofLetter? letter with
  | none => .error (.unknownRecord letter)
  | some kind =>
    if r.program.finish.isSome then .error .afterEnd
    else if kind.rank < r.rank ∨ (kind = .header ∧ r.program.header.isSome) then
      .error (.outOfOrder letter)
    else
      match r.accept kind line with
      | .error fault => .error (.badRecord fault)
      | .ok program => .ok { program, rank := kind.rank }

/-- Take in the lines from the given number on; empty lines count and are skipped. -/
def Reader.run : (number : Nat) → Reader → List Text → Except FileFault Reader
  | _, r, [] => .ok r
  | n, r, [] :: ls => Reader.run (n + 1) r ls
  | n, r, (c :: cs) :: ls =>
    match r.step c (c :: cs) with
    | .error cause => .error { cause, line := some n }
    | .ok r' => Reader.run (n + 1) r' ls

def ofProgram (p : ObjectProgram) : Except FileFault ObjectFile :=
  match p.header, p.finish with
  | none, _ => .error { cause := .headerMissing }
  | some _, none => .error { cause := .endMissing }
  | some header, some finish =>
    .ok { header, text := p.text, modifications := p.modifications, finish }

def parse (t : Text) : Except FileFault ObjectFile := do
  let r ← Reader.run 1 {} (Text.recordLines t)
  ofProgram r.program

/-- The bytes of all text records in order. -/
def objectCode (f : ObjectFile) : Except Nat (List UInt8) :=
  (f.text.mapM TextRecord.bytes).map List.flatten

end ObjectFile

end TwoPass
