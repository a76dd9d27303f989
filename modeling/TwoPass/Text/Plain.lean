import TwoPass.Text.Basic

/-
  Plain text: a text without the control sequences that would move the cursor of a terminal or
  colour what it shows. A sequence is the escape character, a bracket, any number of parameters
  and a letter; whatever does not end in a letter is text. What is left is not looked at again.
-/

namespace TwoPass.Text

def isControlParameter (c : Char) : Bool := c.isDigit || c = ';' || c = '?'

/-- The length of the control sequence at the start of a text, if there is one. -/
def controlLength? : Text → Option Nat
  | '\x1b' :: '[' :: rest =>
    match rest.dropWhile isControlParameter with
    | c :: _ => if c.isAlpha then some ((rest.takeWhile isControlParameter).length + 3) else none
    | [] => none
  | _ => none

/-- A text behind its first `skip` characters, without control sequences. -/
def plainFrom : (skip : Nat) → Text → Text
  | _, [] => []
  | skip + 1, _ :: cs => plainFrom skip cs
  | 0, c :: cs =>
    match controlLength? (c :: cs) with
    | some n => plainFrom (n - 1) cs
    | none => c :: plainFrom 0 cs

def plain (t : Text) : Text := plainFrom 0 t

end TwoPass.Text
