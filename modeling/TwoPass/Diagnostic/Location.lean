import TwoPass.Text.Basic

/-
  A place in a source file. Lines and columns count from one; a column of zero or less marks no
  character.
-/

namespace TwoPass

structure Location where
  file : Text
  line : Int
  column : Int := 1
  deriving DecidableEq

def Location.text (l : Location) : Text :=
  l.file ++ ":" ++ Text.ofInt l.line ++ ":" ++ Text.ofInt l.column

end TwoPass
