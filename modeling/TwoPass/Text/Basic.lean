/-
  Text as the list of its characters. Source lines, operands, object records and messages are
  all `Text`, so lengths and positions count characters. `isBlank` and `isLineBreak` are the
  two character classes that separate fields and records.
-/

namespace TwoPass

abbrev Text := List Char

instance : Coe String Text := ⟨String.toList⟩

namespace Text

def inRanges (ranges : List (Nat × Nat)) (c : Char) : Bool :=
  ranges.any fun r => r.1 ≤ c.toNat && c.toNat ≤ r.2

/-- White space: it separates fields and may surround a program name. -/
def isBlank (c : Char) : Bool :=
  inRanges [(0x09, 0x0D), (0x1C, 0x20), (0x85, 0x85), (0xA0, 0xA0), (0x1680, 0x1680),
    (0x2000, 0x200A), (0x2028, 0x2029), (0x202F, 0x202F), (0x205F, 0x205F), (0x3000, 0x3000)] c

/-- A character at which an object file is cut into records. -/
def isLineBreak (c : Char) : Bool :=
  inRanges [(0x0A, 0x0D), (0x1C, 0x1E), (0x85, 0x85), (0x2028, 0x2029)] c

/-- White space within ASCII, the kind allowed between the bytes of a hex dump. -/
def isAsciiBlank (c : Char) : Bool :=
  inRanges [(0x09, 0x0D), (0x20, 0x20)] c

def dropEndWhile (p : Char → Bool) (t : Text) : Text :=
  (t.reverse.dropWhile p).reverse

def trimEnd (t : Text) : Text := dropEndWhile isBlank t

def trim (t : Text) : Text := trimEnd (t.dropWhile isBlank)

/-- A line without the carriage returns and newlines that end it. -/
def dropLineEnd (t : Text) : Text :=
  dropEndWhile (fun c => c == '\r' || c == '\n') t

def ofInt (n : Int) : Text := toString n

def ofNat (n : Nat) : Text := toString n

/-- The texts in order, with `separator` between each two. -/
def join (separator : Text) : List Text → Text
  | [] => []
  | [t] => t
  | t :: ts => t ++ separator ++ join separator ts

end Text

end TwoPass
