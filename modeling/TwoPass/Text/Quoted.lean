import TwoPass.Number.Hex
import TwoPass.Text.Unprintable

/-
  A name in quotes, as messages about files show it. Single quotes are used unless the name has
  some and no double quotes; a quote of the kind in use, a backslash and characters that do not
  print are escaped.
-/

namespace TwoPass.Text

/-- The lower-case digits of a code point, to a fixed width. -/
def codeDigits (width : Nat) (c : Char) : Text :=
  (Hex.digits width c.toNat).map Char.toLower

def escape (quote c : Char) : Text :=
  if c = quote ∨ c = '\\' then ['\\', c]
  else if c = '\n' then ['\\', 'n']
  else if c = '\r' then ['\\', 'r']
  else if c = '\t' then ['\\', 't']
  else if isUnprintable c then
    if c.toNat < 0x100 then ['\\', 'x'] ++ codeDigits 2 c
    else if c.toNat < 0x10000 then ['\\', 'u'] ++ codeDigits 4 c
    else ['\\', 'U'] ++ codeDigits 8 c
  else [c]

def quoted (t : Text) : Text :=
  let quote := if t.contains '\x27' && !t.contains '"' then '"' else '\x27'
  quote :: t.flatMap (escape quote) ++ [quote]

end TwoPass.Text
