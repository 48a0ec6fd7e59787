import OneTimeSig.Text.HexField

/-!
# The master secret
-/

namespace OneTimeSig

/-- The 32 bytes that all keys are derived from. -/
structure MasterSecret where
  /-- The bytes. -/
  bytes : FixedBytes 32
deriving DecidableEq

/-- The secret never shows its bytes. -/
instance : ToString MasterSecret where
  toString _ := "MasterSecret(..)"

/-- Reads the secret from 64 hexadecimal digits. -/
def MasterSecret.parse (text : String) : Except Error MasterSecret := do
  return ⟨← HexField.readFixed 32 "secret" text⟩

end OneTimeSig
