import TwoPass.Number.Hex
import TwoPass.Symbol.Table

/-
  Remarks made while assembling goes on: warnings about symbols and settings, and progress for
  those who ask for detail.
-/

namespace TwoPass

inductive Level
  | debug
  | warning
  deriving DecidableEq

inductive Notice
  | duplicateIgnored (location : Location) (symbol : Text) (first : Option Location)
  | undefinedAsZero (location : Location) (symbol : Text)
  | invalidLimit (value : Text)
  | laidOut (symbols : Nat) (load final : Int)
  | endReached (location : Location)
  | generated (texts modifications : Nat)
  deriving DecidableEq

namespace Notice

def level : Notice → Level
  | .duplicateIgnored _ _ _ => .warning
  | .undefinedAsZero _ _ => .warning
  | .invalidLimit _ => .warning
  | .laidOut _ _ _ => .debug
  | .endReached _ => .debug
  | .generated _ _ => .debug

def text : Notice → Text
  | .duplicateIgnored location symbol first =>
    location.text ++ ": duplicate symbol '" ++ symbol ++ "' ignored, first defined at " ++
      (first.map Location.text).getD "an unknown place"
  | .undefinedAsZero location symbol =>
    location.text ++ ": undefined symbol '" ++ symbol ++ "', using address 0000"
  | .invalidLimit value => "ignoring invalid SICASM_MAX_ADDRESS '" ++ value ++ "'"
  | .laidOut symbols load final =>
    "Pass 1 complete: " ++ Text.ofNat symbols ++ " symbols, load $" ++ Hex.signed 4 load ++
      ", end $" ++ Hex.signed 4 final
  | .endReached location => location.text ++ ": END reached, remaining lines ignored"
  | .generated texts modifications =>
    "Pass 2 complete: " ++ Text.ofNat texts ++ " text, " ++ Text.ofNat modifications ++
      " modification records"

def isWarning (n : Notice) : Bool := n.level = .warning

end Notice

end TwoPass
