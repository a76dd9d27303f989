import TwoPass.Machine.Mnemonic

/-
  What a statement asks for: an assembler directive, a machine instruction, or a name that is
  neither. Names are matched exactly, upper case only.
-/

namespace TwoPass

inductive Directive
  | start
  | finish
  | reserveBytes
  | reserveWords
  | reserveRegister
  | byte
  | word
  | exports
  deriving DecidableEq

namespace Directive

def all : List Directive :=
  [.byte, .finish, .exports, .reserveBytes, .reserveRegister, .reserveWords, .start, .word]

def name : Directive → Text
  | .start => "START"
  | .finish => "END"
  | .reserveBytes => "RESB"
  | .reserveWords => "RESW"
  | .reserveRegister => "RESR"
  | .byte => "BYTE"
  | .word => "WORD"
  | .exports => "EXPORTS"

/-- All directives but the two constants produce no object code. -/
def isStorage : Directive → Bool
  | .byte => false
  | .word => false
  | _ => true

def ofName? (t : Text) : Option Directive := all.find? fun d => d.name = t

end Directive

inductive Operation
  | directive (d : Directive)
  | instruction (m : Mnemonic)
  | unknown (name : Text)
  deriving DecidableEq

namespace Operation

def ofName (t : Text) : Operation :=
  match Directive.ofName? t with
  | some d => .directive d
  | none =>
    match Mnemonic.ofName? t with
    | some m => .instruction m
    | none => .unknown t

def name : Operation → Text
  | .directive d => d.name
  | .instruction m => m.name
  | .unknown t => t

def isDirective : Operation → Bool
  | .directive _ => true
  | _ => false

/-- Whether an operand of this operation would be used. -/
def takesOperand : Operation → Bool
  | .instruction m => m.takesOperand
  | _ => true

/-- Directives and instructions are keywords: alone in column one they are no label. -/
def isKeyword : Operation → Bool
  | .unknown _ => false
  | _ => true

end Operation

end TwoPass
