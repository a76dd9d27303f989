import TwoPass.Text.Basic

/-
  Three ways to cut a text into lines. A source held in memory is cut after each newline; a
  source file after each newline, carriage return or pair of the two; both keep the characters
  that end a line. An object file is cut at every line break character, and they are dropped.
-/

namespace TwoPass.Text

/-- Put a character in front of the first line. -/
def consLine (c : Char) : List Text → List Text
  | [] => [[c]]
  | l :: ls => (c :: l) :: ls

/-- The lines of a text, each with the newline that ends it. -/
def lines : Text → List Text
  | [] => []
  | c :: cs => if c = '\n' then [c] :: lines cs else consLine c (lines cs)

/-- The lines of a file, each with the `\n`, `\r` or `\r\n` that ends it. -/
def fileLines : Text → List Text
  | [] => []
  | '\r' :: '\n' :: cs => ['\r', '\n'] :: fileLines cs
  | c :: cs => if c = '\n' ∨ c = '\r' then [c] :: fileLines cs else consLine c (fileLines cs)

/-- The lines of an object file, without the line breaks. -/
def recordLines : Text → List Text
  | [] => []
  | '\r' :: '\n' :: cs => [] :: recordLines cs
  | c :: cs => if isLineBreak c then [] :: recordLines cs else consLine c (recordLines cs)

end TwoPass.Text
