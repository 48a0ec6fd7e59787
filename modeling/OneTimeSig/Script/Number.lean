import OneTimeSig.Bytes.Hex
import OneTimeSig.Script.Error

/-!
# Numbers on the stack

The machine reads a byte string as a number with the least significant byte first. The top bit of
the last byte is the sign and the other bits are the magnitude. Of the strings that write a number
only the shortest is a valid operand, and an operand has at most four bytes.
-/

namespace OneTimeSig.Script.Number

/-- The bit of the last byte that holds the sign. -/
def signBit : UInt8 := 0x80

/-- The bytes of a natural number, the least significant first, without zeros at the end. -/
def littleEndian (n : Nat) : Bytes :=
  if n = 0 then [] else UInt8.ofNat (n % 256) :: littleEndian (n / 256)
termination_by n
decreasing_by omega

/-- Puts the sign into the last byte, or behind it when the bit is taken by the magnitude. -/
def withSign (negative : Bool) : Bytes → Bytes
  | [] => []
  | [last] =>
    if last &&& signBit ≠ 0 then [last, if negative then signBit else 0]
    else [if negative then last ||| signBit else last]
  | b :: rest => b :: withSign negative rest

/-- The shortest byte string that writes the number. -/
def encode (n : Int) : Bytes :=
  withSign (n < 0) (littleEndian n.natAbs)

/-- The magnitude that the bytes write. -/
def magnitude : Bytes → Nat
  | [] => 0
  | [last] => (last &&& 0x7f).toNat
  | b :: rest => b.toNat + 256 * magnitude rest

/-- Whether the sign bit is set. -/
def isNegative : Bytes → Bool
  | [] => false
  | [last] => last &&& signBit ≠ 0
  | _ :: rest => isNegative rest

/-- The number that the bytes write, whether or not they are the shortest to do so. -/
def value (item : Bytes) : Int :=
  if isNegative item then -(magnitude item : Int) else magnitude item

/-- Whether no shorter string writes the same number: the last byte holds more than the sign, or
the byte before it leaves the sign no room. -/
def isMinimal : Bytes → Bool
  | [] => true
  | [last] => last &&& 0x7f ≠ 0
  | [below, last] => last &&& 0x7f ≠ 0 || below &&& signBit ≠ 0
  | _ :: rest => isMinimal rest

/-- The most bytes that an operand may have. -/
def maxLength : Nat := 4

/-- Reads an operand. -/
def decode (item : Bytes) : Except Error Int :=
  if maxLength < item.length then .error (.numberTooLong item.length)
  else if !isMinimal item then .error (.nonMinimalNumber (Hex.encode item))
  else .ok (value item)

/-- The difference of two numbers, if it fits a machine word. -/
def subtract (a b : Int) : Except Error Int :=
  if Int64.minValue.toInt ≤ a - b ∧ a - b ≤ Int64.maxValue.toInt then .ok (a - b)
  else .error .numericOverflow

/-- A magnitude that fills its last byte leaves the sign to one more byte, and the sign alone writes
nothing. -/
example : encode 127 = [0x7f] ∧ encode 128 = [0x80, 0x00] ∧ encode (-128) = [0x80, 0x80]
    ∧ isMinimal [0x80] = false := by
  decide +kernel

/-- Whether an item counts as true: some bit besides the sign bit is set. -/
def isTrue : Bytes → Bool
  | [] => false
  | [last] => last ≠ 0 && last ≠ signBit
  | b :: rest => b ≠ 0 || isTrue rest

/-- The item that stands for a truth value. -/
def ofBool (b : Bool) : Bytes :=
  if b then [0x01] else []

end OneTimeSig.Script.Number
