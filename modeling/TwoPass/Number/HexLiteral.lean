import TwoPass.Number.Hex
import TwoPass.Number.DecimalDigit

/-
  Hexadecimal numbers as a user types them on a command line or in the environment: white space
  around, a sign, `0x` in front, single underscores between digits (and behind `0x`), and
  decimal digits of any script.
-/

namespace TwoPass.HexLiteral

/-- The ASCII character that another character stands for: a space for white space, a digit for a
    decimal digit of any script. -/
def ascii? (c : Char) : Option Char :=
  if c.toNat < 127 then some c
  else if Text.isBlank c then some ' '
  else (DecimalDigit.value? c).map fun d => Char.ofNat (48 + d)

/-- Digits with single underscores between them; `gap` holds where no underscore may stand. -/
def digitsFrom? : (gap : Bool) → Nat → Text → Option Nat
  | gap, n, [] => if gap then none else some n
  | gap, n, c :: cs =>
    if c = '_' then (if gap then none else digitsFrom? true n cs)
    else (Hex.value? c).bind fun d => digitsFrom? false (16 * n + d) cs

/-- A number behind its sign. -/
def magnitude? : Text → Option Nat
  | '0' :: x :: '_' :: cs =>
    if x = 'x' ∨ x = 'X' then digitsFrom? true 0 cs else digitsFrom? true 0 ('0' :: x :: '_' :: cs)
  | '0' :: x :: cs =>
    if x = 'x' ∨ x = 'X' then digitsFrom? true 0 cs else digitsFrom? true 0 ('0' :: x :: cs)
  | cs => digitsFrom? true 0 cs

def signed? : Text → Option Int
  | '-' :: cs => (magnitude? cs).map fun n => -(n : Int)
  | '+' :: cs => (magnitude? cs).map fun n => (n : Int)
  | cs => (magnitude? cs).map fun n => (n : Int)

def read? (t : Text) : Option Int :=
  (t.mapM ascii?).bind fun cs =>
    signed? (Text.dropEndWhile Text.isAsciiBlank (cs.dropWhile Text.isAsciiBlank))

end TwoPass.HexLiteral
