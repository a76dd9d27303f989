import TwoPass.Assembly.Layout

/-
  The object code of a statement, as hex digits. An instruction is its opcode and the address of
  its operand, a word its value as 24 bits, a byte constant the code of its literal.
-/

namespace TwoPass

namespace Code

/-- Characters of the longest operand a constant may have. -/
def operandLimit : Nat := 60

def instruction (opcode address : Int) : Text := Hex.signed 2 opcode ++ Hex.signed 4 address

/-- The values a word can hold: signed from the lowest one up, or unsigned below the number of
    different words. -/
def wordMin : Int := -0x800000

def wordCount : Int := 0x1000000

def word (operand : Text) : Except Cause Text :=
  match Operand.decimal operand with
  | .error cause => .error cause
  | .ok value =>
    if wordMin ≤ value ∧ value < wordCount then .ok (Hex.padded 6 (value % wordCount).toNat)
    else .error (.wordOutOfRange value)

def byte (operand : Text) : Except Cause Text :=
  match ByteLiteral.read operand with
  | .error cause => .error cause
  | .ok literal =>
    match literal.code? with
    | some code => .ok code
    | none => .error (.notAscii operand)

end Code

namespace Statement

/-- A fault of a statement, shown with its text. -/
def fault (s : Statement) (cause : Cause) : Fault :=
  { cause, location := s.location, excerpt := some s.text }

/-- The operand of a constant directive, checked for its length. -/
def constantOperand (s : Statement) (d : Directive) : Except Fault Text :=
  match s.operand with
  | none => .error (s.fault (.missing (d.name ++ " operand")))
  | some operand =>
    if Code.operandLimit < operand.length then
      .error (s.fault (.operandTooLong operand Code.operandLimit))
    else .ok operand

/-- The address an instruction refers to, with a notice if it is zero for want of a symbol. -/
def target (s : Statement) (options : Options) (location : Location) (symbols : SymbolTable)
    (m : Mnemonic) : Except Fault (Int × List Notice) :=
  if m.takesOperand then
    match s.operand with
    | none => .error (s.fault (.missing ("operand for " ++ m.name)))
    | some operand =>
      match symbols.find? operand with
      | some symbol => .ok (symbol.address, [])
      | none =>
        if options.rejectUndefined then
          .error (s.fault (.undefinedSymbol operand (symbols.similar operand)))
        else .ok (0, [.undefinedAsZero location operand])
  else .ok (0, [])

/-- The code of a statement and the notices about it. -/
def encode (s : Statement) (options : Options) (location : Location) (symbols : SymbolTable) :
    Except Fault (Text × List Notice) :=
  match s.operation with
  | .directive .word => do
    let operand ← s.constantOperand .word
    let code ← placed s.location (Code.word operand)
    return (code, [])
  | .directive .byte => do
    let operand ← s.constantOperand .byte
    let code ← placed s.location (Code.byte operand)
    return (code, [])
  | .directive _ => .ok ([], [])
  | .unknown name => .error (s.fault (.unknownInstruction name))
  | .instruction m => do
    let (address, notices) ← s.target options location symbols m
    return (Code.instruction m.opcode address, notices)

/-- The symbol by which a loader adjusts the code of a statement, if it is to be adjusted. -/
def relocation? (s : Statement) : Option Text :=
  match s.operation with
  | .directive _ => none
  | operation => if operation.takesOperand then s.operand else none

end Statement

end TwoPass
