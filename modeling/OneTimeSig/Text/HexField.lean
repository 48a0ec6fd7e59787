import OneTimeSig.Error

/-!
# Named hexadecimal values

Keys, messages and signatures are given as hexadecimal texts with blanks around them ignored. An
error names the value that could not be read.
-/

namespace OneTimeSig.HexField

/-- The bytes of the named value. -/
def read (what text : String) : Except Error Bytes :=
  match Hex.decode (Text.utf8 (Text.trim text.toList)) with
  | .ok bytes => .ok bytes
  | .error cause => .error (.notHex what cause)

/-- The bytes of the named value, of which there must be `n`. -/
def readFixed (n : Nat) (what text : String) : Except Error (FixedBytes n) := do
  let bytes ← read what text
  match FixedBytes.ofList? n bytes with
  | some fixed => return fixed
  | none => throw (.wrongSize what n bytes.length)

end OneTimeSig.HexField
