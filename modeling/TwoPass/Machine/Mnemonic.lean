import TwoPass.Number.Hex

/-
  The machine: its instructions with their names and opcodes, and the size of what it stores.
-/

namespace TwoPass

/-- Bytes of a machine instruction; also what an indented line counts for until it is known. -/
def instructionSize : Nat := 3

/-- Bytes of a word. -/
def wordSize : Nat := 3

/-- The address at which assembling stops unless another limit is given. -/
def topAddress : Int := 0x7FFF

inductive Mnemonic
  | add | sub | mul | div | comp | tix | and | or
  | j | jeq | jgt | jlt | jsub | rsub
  | lda | ldch | ldl | ldx
  | sta | stch | stl | stsw | stx
  | rd | td | wd
  deriving DecidableEq

namespace Mnemonic

def all : List Mnemonic :=
  [.add, .and, .comp, .div, .j, .jeq, .jgt, .jlt, .jsub, .lda, .ldch, .ldl, .ldx, .mul, .or, .rd,
    .rsub, .sta, .stch, .stl, .stsw, .stx, .sub, .td, .tix, .wd]

def name : Mnemonic → Text
  | .add => "ADD"
  | .sub => "SUB"
  | .mul => "MUL"
  | .div => "DIV"
  | .comp => "COMP"
  | .tix => "TIX"
  | .and => "AND"
  | .or => "OR"
  | .j => "J"
  | .jeq => "JEQ"
  | .jgt => "JGT"
  | .jlt => "JLT"
  | .jsub => "JSUB"
  | .rsub => "RSUB"
  | .lda => "LDA"
  | .ldch => "LDCH"
  | .ldl => "LDL"
  | .ldx => "LDX"
  | .sta => "STA"
  | .stch => "STCH"
  | .stl => "STL"
  | .stsw => "STSW"
  | .stx => "STX"
  | .rd => "RD"
  | .td => "TD"
  | .wd => "WD"

def opcode : Mnemonic → Nat
  | .add => 0x18
  | .sub => 0x1C
  | .mul => 0x20
  | .div => 0x24
  | .comp => 0x28
  | .tix => 0x2C
  | .and => 0x40
  | .or => 0x44
  | .j => 0x3C
  | .jeq => 0x30
  | .jgt => 0x34
  | .jlt => 0x38
  | .jsub => 0x48
  | .rsub => 0x4C
  | .lda => 0x00
  | .ldch => 0x50
  | .ldl => 0x08
  | .ldx => 0x04
  | .sta => 0x0C
  | .stch => 0x54
  | .stl => 0x14
  | .stsw => 0xE8
  | .stx => 0x10
  | .rd => 0xD8
  | .td => 0xE0
  | .wd => 0xDC

/-- Only the return from a subroutine names no address. -/
def takesOperand (m : Mnemonic) : Bool := m ≠ .rsub

def ofName? (t : Text) : Option Mnemonic := all.find? fun m => m.name = t

/-- How an entry of the instruction table is shown. -/
def summary (m : Mnemonic) : Text :=
  "InstructionInfo(" ++ m.name ++ ", opcode=$" ++ Hex.padded 2 m.opcode ++ ")"

end Mnemonic

end TwoPass
