import OneTimeSig.Text.Blank
import OneTimeSig.Text.Quoted

/-!
# Hexadecimal texts

Byte strings enter and leave the program as hexadecimal texts. They are written in lower case and
read in either case, two digits to a byte. A text of odd length is refused as such before any of
its characters is looked at; after that the first byte that is no digit is reported.
-/

namespace OneTimeSig.Hex

/-- The characters of the bytes, two digits each. -/
def digits (bytes : Bytes) : List Char :=
  bytes.flatMap fun b => [Nat.digitChar (b.toNat / 16), Nat.digitChar (b.toNat % 16)]

/-- The bytes as a text. -/
def encode (bytes : Bytes) : String :=
  String.ofList (digits bytes)

/-- Why a text is not hexadecimal. -/
inductive Error where
  /-- Its bytes do not pair up. -/
  | oddLength
  /-- The byte at the position is no digit. -/
  | invalidByte (byte : UInt8) (position : Nat)
deriving DecidableEq

/-- The wording of the reason. -/
def Error.message : Error → String
  | oddLength => "Odd number of digits"
  | invalidByte byte position =>
    "Invalid character " ++ Text.quote byte ++ " at position " ++ toString position

/-- The value of a digit in either case. -/
def value? (b : UInt8) : Option UInt8 :=
  if 0x30 ≤ b ∧ b ≤ 0x39 then some (b - 0x30)
  else if 0x41 ≤ b ∧ b ≤ 0x46 then some (b - 0x37)
  else if 0x61 ≤ b ∧ b ≤ 0x66 then some (b - 0x57)
  else none

/-- The value of the byte found at a position, which must be a digit. -/
def value (b : UInt8) (position : Nat) : Except Error UInt8 :=
  match value? b with
  | some v => .ok v
  | none => .error (.invalidByte b position)

/-- Reads pairs of digits, the first of which stands at the position. -/
def decodePairs (position : Nat) : Bytes → Except Error Bytes
  | [] => .ok []
  | [_] => .error .oddLength
  | high :: low :: rest => do
    let h ← value high position
    let l ← value low (position + 1)
    let bytes ← decodePairs (position + 2) rest
    return (h * 16 + l) :: bytes

/-- Reads a text given as bytes. -/
def decode (text : Bytes) : Except Error Bytes :=
  if text.length % 2 = 1 then .error .oddLength else decodePairs 0 text

end OneTimeSig.Hex
