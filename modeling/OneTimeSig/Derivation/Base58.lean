import OneTimeSig.Hash

/-!
# Base 58 with a checksum

The text form of extended keys: a byte string is read as one number and written with 58 digits
that are hard to confuse. Four bytes of its hash go along as a checksum.
-/

namespace OneTimeSig.Base58

/-- The digits in the order of their values. -/
def alphabet : Array Char :=
  "123456789ABCDEFGHJKLMNPQRSTUVWXYZabcdefghijkmnopqrstuvwxyz".toList.toArray

/-- The digits of a number in front of `rest`; zero has none. -/
def digits (n : Nat) (rest : List Char) : List Char :=
  if n = 0 then rest else digits (n / 58) (alphabet.getD (n % 58) '1' :: rest)
termination_by n
decreasing_by omega

/-- The text of the bytes: a zero byte in front is written as a digit of its own. -/
def encode (bytes : Bytes) : String :=
  String.ofList ((bytes.takeWhile (· == 0)).map (fun _ => '1') ++ digits (bigEndianValue bytes) [])

/-- The text of the bytes with their checksum behind them. -/
def encodeChecked (bytes : Bytes) : String :=
  encode (bytes ++ (hash256 bytes).toList.take 4)

end OneTimeSig.Base58
