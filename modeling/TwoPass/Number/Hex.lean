import TwoPass.Text.Basic

/-
  Hexadecimal numbers: upper-case digits written to a least width, digits of either case read
  back, and hex dumps read as bytes. `digits w n` are the `w` low digits of `n`; a number has
  `length n` digits, so `padded` writes all of them and never fewer than the width.
-/

namespace TwoPass.Hex

/-- The digit of a value below sixteen. -/
def digit (n : Nat) : Char :=
  if n < 10 then Char.ofNat (48 + n) else Char.ofNat (55 + n)

def value? (c : Char) : Option Nat :=
  let n := c.toNat
  if 48 ≤ n ∧ n ≤ 57 then some (n - 48)
  else if 65 ≤ n ∧ n ≤ 70 then some (n - 55)
  else if 97 ≤ n ∧ n ≤ 102 then some (n - 87)
  else none

def isDigit (c : Char) : Bool := (value? c).isSome

/-- The `width` low digits of a number, the highest first. -/
def digits : (width n : Nat) → Text
  | 0, _ => []
  | width + 1, n => digits width (n / 16) ++ [digit (n % 16)]

/-- How many digits a number has; zero has one. -/
def length (n : Nat) : Nat := n.log2 / 4 + 1

/-- A number with zeros in front of it up to the width. -/
def padded (width n : Nat) : Text := digits (max width (length n)) n

/-- As `padded`; a minus sign counts into the width and stands before the zeros. -/
def signed (width : Nat) (n : Int) : Text :=
  if n < 0 then '-' :: padded (width - 1) n.natAbs else padded width n.toNat

/-- The number that digits denote behind those already read. -/
def valueFrom? : Nat → Text → Option Nat
  | n, [] => some n
  | n, c :: cs => (value? c).bind fun d => valueFrom? (16 * n + d) cs

/-- The number that one or more digits denote. -/
def read? : Text → Option Nat
  | [] => none
  | cs => valueFrom? 0 cs

/-- The bytes of a hex dump that starts at `position`. ASCII white space may stand before a byte and
    not inside one; the fault is the position where a digit was needed. -/
def bytesFrom (position : Nat) : Text → Except Nat (List UInt8)
  | [] => .ok []
  | c :: cs =>
    if Text.isAsciiBlank c then bytesFrom (position + 1) cs
    else
      match value? c, cs with
      | none, _ => .error position
      | some _, [] => .error (position + 1)
      | some high, d :: ds =>
        match value? d with
        | none => .error (position + 1)
        | some low => (bytesFrom (position + 2) ds).map (UInt8.ofNat (16 * high + low) :: ·)

/-- The bytes of a hex dump. A character outside ASCII is refused before any other fault. -/
def bytes (t : Text) : Except Nat (List UInt8) :=
  match t.findIdx? fun c => 128 ≤ c.toNat with
  | some position => .error position
  | none => bytesFrom 0 t

end TwoPass.Hex
