import TwoPass.Text.Lines

/-
  File paths. A path is written with single slashes and without `.` parts; `..` is kept, because
  it may lead through a link. Exactly two slashes in front stay two, more become one.
-/

namespace TwoPass.Path

/-- The parts of a text between the given character. -/
def split (separator : Char) : Text → List Text
  | [] => [[]]
  | c :: cs =>
    if c = separator then [] :: split separator cs else Text.consLine c (split separator cs)

/-- The slashes a path starts with, as they are written. -/
def root : Text → Text
  | '/' :: '/' :: '/' :: _ => "/"
  | '/' :: '/' :: _ => "//"
  | '/' :: _ => "/"
  | _ => ""

/-- A path as it is written. -/
def normalize (t : Text) : Text :=
  let parts := (split '/' t).filter fun p => p ≠ [] ∧ p ≠ ['.']
  match root t ++ Text.join "/" parts with
  | [] => "."
  | path => path

/-- Where the object program of a source goes unless another place is given. -/
def objectPath (source : Text) : Text := normalize (source ++ ".obj")

end TwoPass.Path
