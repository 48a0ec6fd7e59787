import OneTimeSig.Bytes

/-!
# A byte quoted in a message

Messages that point at a byte write it as the Latin-1 character between apostrophes. A character
that cannot be printed, or that would end the quotation, is written as an escape.
-/

namespace OneTimeSig.Text

/-- A Latin-1 character that shows nothing on its own: the two blocks of control characters, the
no-break space and the soft hyphen. -/
def isUnprintable (b : UInt8) : Bool :=
  b < 0x20 || (0x7f ≤ b && b ≤ 0xa0) || b == 0xad

/-- How the character stands between the apostrophes. -/
def escape (b : UInt8) : String :=
  let c := Char.ofNat b.toNat
  if c = '\x00' then "\\0"
  else if c = '\t' then "\\t"
  else if c = '\n' then "\\n"
  else if c = '\r' then "\\r"
  else if c = '\x27' then "\\'"
  else if c = '\x5c' then "\\\\"
  else if isUnprintable b then
    "\\u\x7b" ++ String.ofList (Nat.toDigits 16 b.toNat) ++ "\x7d"
  else c.toString

/-- The byte as a quoted character. -/
def quote (b : UInt8) : String :=
  "'" ++ escape b ++ "'"

/-- An apostrophe is escaped, a quotation mark is not, and a byte without a glyph shows its code. -/
example : quote 0x27 = "'\\''" ∧ quote 0x22 = "'\"'" ∧ quote 0x1c = "'\\u\x7b1c\x7d'" := by
  decide +kernel

end OneTimeSig.Text
