import TwoPass.Number.Hex

/-
  The records of an object program, one line each: a header with name, load address and length;
  text records with object code; modification records that tell a loader which field to adjust
  by which symbol; and an end record with the entry address. Each kind is written and read here.
-/

namespace TwoPass.Object

inductive RecordKind
  | header
  | text
  | modification
  | finish
  deriving DecidableEq

namespace RecordKind

/-- The letter a record starts with. -/
def letter : RecordKind → Char
  | .header => 'H'
  | .text => 'T'
  | .modification => 'M'
  | .finish => 'E'

def ofLetter? : Char → Option RecordKind
  | 'H' => some .header
  | 'T' => some .text
  | 'M' => some .modification
  | 'E' => some .finish
  | _ => none

def name : RecordKind → Text
  | .header => "header"
  | .text => "text"
  | .modification => "modification"
  | .finish => "end"

/-- The place of a kind in an object file; it never goes down. -/
def rank : RecordKind → Nat
  | .header => 0
  | .text => 1
  | .modification => 2
  | .finish => 3

end RecordKind

inductive RecordFault
  | malformed (kind : RecordKind) (line : Text)
  | notHex (field : Text)
  deriving DecidableEq

def RecordFault.message : RecordFault → Text
  | .malformed kind line => "malformed " ++ kind.name ++ " record '" ++ line ++ "'"
  | .notHex field => "'" ++ field ++ "' is not a hex field"

/-- The number in a field of hex digits. -/
def hexField (t : Text) : Except RecordFault Nat :=
  match Hex.read? t with
  | some n => .ok n
  | none => .error (.notHex t)

/-- Characters of a program name that a header keeps. -/
def nameWidth : Nat := 6

/-- Digits of an address or a length. -/
def addressWidth : Nat := 6

/-- Half-bytes of the address field of an instruction. -/
def addressHalfBytes : Int := 4

structure Header where
  name : Text
  load : Int
  length : Int
  deriving DecidableEq

namespace Header

def write (h : Header) : Text :=
  'H' :: (h.name.take nameWidth).rightpad nameWidth ' ' ++ Hex.signed addressWidth h.load ++
    Hex.signed addressWidth h.length ++ ['\n']

def read : Text → Except RecordFault Header
  | 'H' :: body =>
    if body.length = nameWidth + 2 * addressWidth then do
      let load ← hexField ((body.drop nameWidth).take addressWidth)
      let length ← hexField (body.drop (nameWidth + addressWidth))
      return { name := Text.trimEnd (body.take nameWidth), load, length }
    else .error (.malformed .header ('H' :: body))
  | line => .error (.malformed .header line)

end Header

/-- The object code of one statement, as hex digits. -/
structure TextRecord where
  code : Text
  deriving DecidableEq

namespace TextRecord

def write (r : TextRecord) : Text := 'T' :: r.code ++ ['\n']

def read : Text → Except RecordFault TextRecord
  | 'T' :: body =>
    if body.length % 2 = 1 then .error (.malformed .text ('T' :: body))
    else if body = [] then .ok { code := body }
    else (hexField body).map fun _ => { code := body }
  | line => .error (.malformed .text line)

/-- The bytes of the code; the fault is the position where a digit was needed. -/
def bytes (r : TextRecord) : Except Nat (List UInt8) := Hex.bytes r.code

end TextRecord

structure Modification where
  start : Int
  halfBytes : Int
  symbol : Text
  deriving DecidableEq

namespace Modification

def write (m : Modification) : Text :=
  'M' :: Hex.signed addressWidth m.start ++ Hex.signed 2 m.halfBytes ++ '+' :: m.symbol ++ ['\n']

/-- The sign stands behind six digits of address and two of length, and a symbol behind it. -/
def read : Text → Except RecordFault Modification
  | 'M' :: body =>
    match body.drop (addressWidth + 2) with
    | '+' :: c :: symbol => do
      let start ← hexField (body.take addressWidth)
      let halfBytes ← hexField ((body.drop addressWidth).take 2)
      return { start, halfBytes, symbol := c :: symbol }
    | _ => .error (.malformed .modification ('M' :: body))
  | line => .error (.malformed .modification line)

end Modification

structure EndRecord where
  entry : Int
  deriving DecidableEq

namespace EndRecord

def write (e : EndRecord) : Text := 'E' :: Hex.signed addressWidth e.entry ++ ['\n']

def read : Text → Except RecordFault EndRecord
  | 'E' :: body =>
    if body.length = addressWidth then (hexField body).map fun n => { entry := n }
    else .error (.malformed .finish ('E' :: body))
  | line => .error (.malformed .finish line)

end EndRecord

end TwoPass.Object
