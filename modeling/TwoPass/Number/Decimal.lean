import TwoPass.Text.Basic

/-
  Decimal numbers as operands write them: an optional minus and ASCII digits. A number longer
  than `digitLimit` digits, leading zeros counted, is refused rather than converted, both in
  reading and in writing.
-/

namespace TwoPass.Decimal

def digitLimit : Nat := 4300

def isDigit (c : Char) : Bool := 48 ≤ c.toNat && c.toNat ≤ 57

/-- The number that digits denote behind those already read. -/
def valueFrom : Nat → Text → Nat
  | n, [] => n
  | n, c :: cs => valueFrom (10 * n + (c.toNat - 48)) cs

/-- What a text is as a decimal number. -/
inductive Reading
  | number (value : Int)
  | tooLong (count : Nat)
  | malformed
  deriving DecidableEq

/-- The part of a number behind its minus sign, and whether there is one. -/
def splitSign : Text → Bool × Text
  | '-' :: cs => (true, cs)
  | cs => (false, cs)

def read (t : Text) : Reading :=
  let (negative, ds) := splitSign t
  if ds.isEmpty || !ds.all isDigit then .malformed
  else if digitLimit < ds.length then .tooLong ds.length
  else if negative then .number (-(valueFrom 0 ds : Int))
  else .number (valueFrom 0 ds)

def write? (n : Int) : Option Text :=
  if digitLimit < (Text.ofNat n.natAbs).length then none else some (Text.ofInt n)

end TwoPass.Decimal
