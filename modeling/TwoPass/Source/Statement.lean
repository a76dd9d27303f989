import TwoPass.Diagnostic.Fault
import TwoPass.Source.Fields

/-
  Source lines and the statements they hold. A line that starts with `#` or has only white space
  is a remark; one that starts with a space or tab holds an unlabelled statement; any other may
  start with a label. In column one a keyword is a label only if another keyword follows it.
-/

namespace TwoPass

/-- A line of source with its place. -/
structure Line where
  location : Location
  raw : Text
  deriving DecidableEq

/-- The lines of a file, numbered from one. -/
def numberLines (file : Text) (lines : List Text) : List Line :=
  (lines.zipIdx 1).map fun l => { location := { file, line := l.2 }, raw := l.1 }

inductive LineKind
  | labelled
  | indented
  | remark
  deriving DecidableEq

namespace LineKind

def of : Text → LineKind
  | [] => .remark
  | c :: cs =>
    if c = '#' ∨ (c :: cs).all Text.isBlank then .remark
    else if c = ' ' ∨ c = '\t' then .indented
    else .labelled

/-- The bytes counted for a line before its statement is known. -/
def width : LineKind → Int
  | .indented => instructionSize
  | _ => 0

end LineKind

structure Statement where
  label : Option Text
  operation : Operation
  operand : Option Text
  location : Option Location := none
  text : Text := []
  deriving DecidableEq

namespace Statement

def isKeyword (t : Text) : Bool := (Operation.ofName t).isKeyword

/-- Whether the first field of a column-one line is a label. -/
def hasLabel (first : Text) (rest : List Text) : Bool :=
  !isKeyword first || rest.head?.any isKeyword

/-- The statement of a line of the given kind; a remark has none. -/
def read (kind : LineKind) (raw : Text) (location : Option Location) :
    Except Fault (Option Statement) :=
  let text := Text.dropLineEnd raw
  if kind = .remark then .ok none
  else
    match Source.fields text with
    | [] => .error { cause := .noFields }
    | first :: rest =>
      if kind = .labelled ∧ hasLabel first rest then
        match rest with
        | [] =>
          .error { cause := .missing ("directive after label '" ++ first ++ "'"), location,
                   excerpt := some text }
        | name :: operands =>
          .ok (some { label := some first, operation := Operation.ofName name,
                      operand := operands.head?, location, text })
      else
        .ok (some { label := none, operation := Operation.ofName first,
                    operand := rest.head?, location, text })

end Statement

end TwoPass
