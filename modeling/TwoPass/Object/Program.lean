import TwoPass.Object.Record

/-
  An object program under construction. Records may be added in any order; they are written
  header first, then text and modification records as they were added, then the end record.
-/

namespace TwoPass

structure ObjectProgram where
  header : Option Object.Header := none
  text : List Object.TextRecord := []
  modifications : List Object.Modification := []
  finish : Option Object.EndRecord := none
  deriving DecidableEq

namespace ObjectProgram

open Object

def setHeader (p : ObjectProgram) (h : Header) : ObjectProgram := { p with header := some h }

def addText (p : ObjectProgram) (code : Text) : ObjectProgram :=
  { p with text := p.text ++ [{ code }] }

def addModifications (p : ObjectProgram) (ms : List Modification) : ObjectProgram :=
  { p with modifications := p.modifications ++ ms }

def setEnd (p : ObjectProgram) (entry : Int) : ObjectProgram := { p with finish := some { entry } }

/-- Whether both the header and the end record are there. -/
def isComplete (p : ObjectProgram) : Bool := p.header.isSome && p.finish.isSome

/-- The header as it is written; nothing if there is none yet. -/
def headerText (p : ObjectProgram) : Text := (p.header.map Header.write).getD []

/-- The end record as it is written; nothing if there is none yet. -/
def endText (p : ObjectProgram) : Text := (p.finish.map EndRecord.write).getD []

/-- The records in file order, each with its newline. -/
def records (p : ObjectProgram) : List Text :=
  p.header.toList.map Header.write ++ p.text.map TextRecord.write ++
    p.modifications.map Modification.write ++ p.finish.toList.map EndRecord.write

def render (p : ObjectProgram) : Text := p.records.flatten

/-- Why object code cannot be had from text records. -/
inductive CodeFault
  | record (fault : RecordFault)
  | digit (position : Nat)
  deriving DecidableEq

def CodeFault.message : CodeFault → Text
  | .record fault => fault.message
  | .digit position =>
    "non-hexadecimal number found in fromhex() arg at position " ++ Text.ofNat position

/-- The bytes of a record as it is written, newlines at its end apart. -/
def recordBytes (r : TextRecord) : Except CodeFault (List UInt8) :=
  match TextRecord.read (Text.dropEndWhile (· == '\n') r.write) with
  | .error fault => .error (.record fault)
  | .ok record => record.bytes.mapError .digit

/-- The bytes of all text records in order. -/
def objectCode (p : ObjectProgram) : Except CodeFault (List UInt8) :=
  (p.text.mapM recordBytes).map List.flatten

end ObjectProgram

end TwoPass
