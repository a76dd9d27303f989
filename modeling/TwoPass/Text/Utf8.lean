import TwoPass.Number.Hex

/-
  UTF-8: characters as one to four bytes. `decode` accepts exactly the shortest forms of valid
  code points and says where the first sequence that is not one lies.
-/

namespace TwoPass.Utf8

def encodeChar (c : Char) : List UInt8 :=
  let n := c.toNat
  if n < 0x80 then [UInt8.ofNat n]
  else if n < 0x800 then [UInt8.ofNat (0xC0 + n / 64), UInt8.ofNat (0x80 + n % 64)]
  else if n < 0x10000 then
    [UInt8.ofNat (0xE0 + n / 4096), UInt8.ofNat (0x80 + n / 64 % 64), UInt8.ofNat (0x80 + n % 64)]
  else
    [UInt8.ofNat (0xF0 + n / 262144), UInt8.ofNat (0x80 + n / 4096 % 64),
      UInt8.ofNat (0x80 + n / 64 % 64), UInt8.ofNat (0x80 + n % 64)]

def encode (t : Text) : List UInt8 := t.flatMap encodeChar

inductive Reason
  | invalidStart
  | invalidContinuation
  | unexpectedEnd
  deriving DecidableEq

def Reason.text : Reason → Text
  | .invalidStart => "invalid start byte"
  | .invalidContinuation => "invalid continuation byte"
  | .unexpectedEnd => "unexpected end of data"

/-- The first bad sequence: its first byte and the positions of its first and last byte. -/
structure Fault where
  reason : Reason
  byte : UInt8
  first : Nat
  last : Nat
  deriving DecidableEq

def Fault.text (f : Fault) : Text :=
  let place : Text :=
    if f.first = f.last then
      "byte 0x" ++ (Hex.digits 2 f.byte.toNat).map Char.toLower ++ " in position " ++
        Text.ofNat f.first
    else "bytes in position " ++ Text.ofNat f.first ++ "-" ++ Text.ofNat f.last
  "'utf-8' codec can't decode " ++ place ++ ": " ++ f.reason.text

def isContinuation (b : UInt8) : Bool := 0x80 ≤ b.toNat && b.toNat ≤ 0xBF

/-- Whether a byte may follow a first byte of two or more: it is a continuation byte, and the two
    begin neither an overlong form, nor a surrogate, nor a number past the last code point. -/
def mayFollow (b0 b1 : UInt8) : Bool :=
  isContinuation b1 &&
    (b0 != 0xE0 || 0xA0 ≤ b1.toNat) && (b0 != 0xED || b1.toNat < 0xA0) &&
    (b0 != 0xF0 || 0x90 ≤ b1.toNat) && (b0 != 0xF4 || b1.toNat < 0x90)

/-- The low six bits of a continuation byte behind the bits already read. -/
def extend (n : Nat) (b : UInt8) : Nat := 64 * n + b.toNat % 64

def decodeFrom (position : Nat) : List UInt8 → Except Fault Text
  | [] => .ok []
  | b0 :: r0 =>
    let n0 := b0.toNat
    if n0 < 0x80 then (decodeFrom (position + 1) r0).map (Char.ofNat n0 :: ·)
    else if n0 < 0xC2 ∨ 0xF4 < n0 then .error ⟨.invalidStart, b0, position, position⟩
    else
      match r0 with
      | [] => .error ⟨.unexpectedEnd, b0, position, position⟩
      | b1 :: r1 =>
        if !mayFollow b0 b1 then .error ⟨.invalidContinuation, b0, position, position⟩
        else if n0 < 0xE0 then
          (decodeFrom (position + 2) r1).map (Char.ofNat (extend (n0 - 0xC0) b1) :: ·)
        else
          match r1 with
          | [] => .error ⟨.unexpectedEnd, b0, position, position + 1⟩
          | b2 :: r2 =>
            if !isContinuation b2 then
              .error ⟨.invalidContinuation, b0, position, position + 1⟩
            else if n0 < 0xF0 then
              (decodeFrom (position + 3) r2).map
                (Char.ofNat (extend (extend (n0 - 0xE0) b1) b2) :: ·)
            else
              match r2 with
              | [] => .error ⟨.unexpectedEnd, b0, position, position + 2⟩
              | b3 :: r3 =>
                if !isContinuation b3 then
                  .error ⟨.invalidContinuation, b0, position, position + 2⟩
                else
                  (decodeFrom (position + 4) r3).map
                    (Char.ofNat (extend (extend (extend (n0 - 0xF0) b1) b2) b3) :: ·)

def decode (bytes : List UInt8) : Except Fault Text := decodeFrom 0 bytes

end TwoPass.Utf8
