import TwoPass.Text.Basic

/-
  The fields of a source line. A quoted literal such as `C'A B'` is one field, blanks included;
  any other field is a run of characters without blanks. White space separates fields and is
  dropped; behind a literal none is needed.
-/

namespace TwoPass.Source

abbrev quote : Char := '\x27'

/-- The quoted literal at the start of a text, if there is one. -/
def literal? : Text → Option Text
  | kind :: mark :: rest =>
    if (kind = 'C' ∨ kind = 'X') ∧ mark = quote ∧ quote ∈ rest then
      some (kind :: quote :: rest.takeWhile (· ≠ quote) ++ [quote])
    else none
  | _ => none

/-- The field at the start of a text that starts with none but its own characters. -/
def field (t : Text) : Text :=
  match literal? t with
  | some l => l
  | none => t.takeWhile fun c => !Text.isBlank c

/-- The fields of a text behind its first `skip` characters. -/
def fieldsFrom : (skip : Nat) → Text → List Text
  | _, [] => []
  | skip + 1, _ :: cs => fieldsFrom skip cs
  | 0, c :: cs =>
    if Text.isBlank c then fieldsFrom 0 cs
    else field (c :: cs) :: fieldsFrom ((field (c :: cs)).length - 1) cs

def fields (t : Text) : List Text := fieldsFrom 0 t

end TwoPass.Source
