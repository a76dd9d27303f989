import TwoPass.Source.Statement

/-
  Operands: decimal counts and words, hexadecimal addresses, and the quoted literals of `BYTE`.
-/

namespace TwoPass

namespace Operand

def decimal (t : Text) : Except Cause Int :=
  match Decimal.read t with
  | .number n => .ok n
  | .tooLong count => .error (.tooManyDigits count)
  | .malformed => .error (.notANumber t .decimal)

def hexadecimal (t : Text) : Except Cause Nat :=
  match Hex.read? t with
  | some n => .ok n
  | none => .error (.notANumber t .hexadecimal)

end Operand

/-- A `BYTE` constant: characters, or pairs of hex digits. -/
inductive ByteLiteral
  | characters (body : Text)
  | hex (body : Text)
  deriving DecidableEq

namespace ByteLiteral

/-- Whether an operand starts as a literal does. -/
def announced : Text → Bool
  | c :: _ => c = 'C' ∨ c = 'X'
  | [] => false

/-- The body of a literal, between its quotes. -/
def body? : Text → Option Text
  | _ :: mark :: rest =>
    if mark = Source.quote ∧ rest.getLast? = some Source.quote then some rest.dropLast else none
  | _ => none

def read (operand : Text) : Except Cause ByteLiteral :=
  if !announced operand then .error (.notByteLiteral operand)
  else
    match body? operand with
    | none => .error (.unterminatedLiteral operand)
    | some body =>
      if operand.head? = some 'C' then .ok (.characters body)
      else if body.length % 2 = 1 then .error (.notANumber body .hexadecimal)
      else if body = [] then .ok (.hex body)
      else (Operand.hexadecimal body).map fun _ => .hex body

/-- The bytes a literal stands for. -/
def size : ByteLiteral → Nat
  | .characters body => body.length
  | .hex body => body.length / 2

/-- The code of a literal: digits as they are written, characters by their ASCII codes. -/
def code? : ByteLiteral → Option Text
  | .characters body =>
    if body.all fun c => c.toNat < 128 then some (body.flatMap fun c => Hex.padded 2 c.toNat)
    else none
  | .hex body => some body

end ByteLiteral

namespace Operation

/-- The count of a reservation. -/
def reservedCount (d : Directive) : Option Text → Except Cause Nat
  | none => .error (.missing (d.name ++ " count"))
  | some operand =>
    match Operand.decimal operand with
    | .error cause => .error cause
    | .ok n => if n < 0 then .error (.negativeCount d n) else .ok n.toNat

/-- The bytes of a `BYTE` constant; what is not announced as a literal counts as a word. -/
def constantSize : Option Text → Except Cause Nat
  | none => .ok wordSize
  | some operand =>
    if ByteLiteral.announced operand then (ByteLiteral.read operand).map ByteLiteral.size
    else .ok wordSize

/-- The bytes a statement occupies. Only counts and literals can fail to have a size. -/
def size (operation : Operation) (operand : Option Text) : Except Cause Nat :=
  match operation with
  | .directive .finish => .ok 0
  | .directive .reserveBytes => reservedCount .reserveBytes operand
  | .directive .reserveWords => (reservedCount .reserveWords operand).map (wordSize * ·)
  | .directive .byte => constantSize operand
  | _ => .ok instructionSize

/-- The counter behind a statement, when the width of its line has been counted already. -/
def advance (kind : LineKind) (operation : Operation) (operand : Option Text) (counter : Int) :
    Except Cause Int :=
  (operation.size operand).map fun size => counter + size - kind.width

end Operation

end TwoPass
