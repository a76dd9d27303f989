import TwoPass.Assembly.Generation
import TwoPass.Text.Lines

/-
  Both passes over one source. Whatever the outcome, the notices given and the lines listed are
  part of the answer.
-/

namespace TwoPass

/-- A source that was assembled. -/
structure Assembly where
  layout : Layout
  program : ObjectProgram
  deriving DecidableEq

structure Outcome where
  result : Except Fault Assembly
  listing : List ListingEntry := []
  notices : List Notice := []

/-- Assemble the lines of a source. -/
def assemble (options : Options) (file : Text) (lines : List Text) : Outcome :=
  let source := numberLines file lines
  match layOut options source with
  | .error i => { result := .error i.fault, notices := i.notices }
  | .ok scan =>
    let layout := scan.layout
    let notices := scan.notices ++ [.laidOut layout.symbols.size layout.load layout.final]
    match generate options layout file source with
    | .error b =>
      { result := .error b.fault, listing := b.listing, notices := notices ++ b.notices }
    | .ok g =>
      { result := .ok { layout, program := g.program }
        listing := g.listing
        notices := notices ++ g.notices ++
          [.generated g.program.text.length g.program.modifications.length] }

/-- Assemble a source held in memory. -/
def assembleText (options : Options) (file source : Text) : Outcome :=
  assemble options file (Text.lines source)

end TwoPass
