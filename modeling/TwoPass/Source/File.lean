import TwoPass.Text.Lines
import TwoPass.Text.Utf8

/-
  A source file as it is read. Its bytes come in blocks, and each line is handed on as soon as it
  is complete; so a byte that is no text stops the reading behind the lines of earlier blocks.
  Positions in the fault count from the first byte not yet decoded when its block came in.
-/

namespace TwoPass

structure SourceFile where
  /-- The lines that were read. -/
  lines : List Text
  /-- Why reading stopped, if not at the end of the file. -/
  fault : Option Utf8.Fault := none
  deriving DecidableEq

namespace SourceFile

/-- Bytes read at a time. -/
def blockSize : Nat := 8192

/-- The position at which a fault is noticed; behind the last byte it is the end of the file. A
    surrogate is noticed with its third byte, any other bad sequence with the byte that breaks
    it. -/
def noticedAt (bytes : List UInt8) (f : Utf8.Fault) : Nat :=
  match f.reason with
  | .unexpectedEnd => bytes.length
  | .invalidStart => f.first
  | .invalidContinuation =>
    if f.byte = 0xED ∧ (bytes.drop (f.first + 1)).head?.any Utf8.isContinuation ∧
        f.first = f.last then f.first + 2
    else f.last + 1

/-- How many bytes are decoded when the block with a fault comes in: all of the blocks before it but
    for a character that is not complete. -/
def decodedBefore (bytes : List UInt8) (f : Utf8.Fault) : Nat :=
  let noticed := noticedAt bytes f
  if bytes.length ≤ noticed then f.first
  else
    let boundary := noticed / blockSize * blockSize
    match Utf8.decode (bytes.take boundary) with
    | .ok _ => boundary
    | .error g => g.first

/-- The lines that are complete whatever follows. A carriage return at the very end may yet be the
    first half of a line end. -/
def completeLines (t : Text) : List Text :=
  let lines := Text.fileLines t
  if t.getLast? = some '\n' then lines else lines.dropLast

def ofBytes (bytes : List UInt8) : SourceFile :=
  match Utf8.decode bytes with
  | .ok text => { lines := Text.fileLines text }
  | .error f =>
    let start := decodedBefore bytes f
    { lines := completeLines ((Utf8.decode (bytes.take start)).toOption.getD [])
      fault := some { f with first := f.first - start, last := f.last - start } }

end SourceFile

end TwoPass
