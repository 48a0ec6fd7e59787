import OneTimeSig.Script.Opcode

/-!
# Why a run of the stack machine fails
-/

namespace OneTimeSig.Script

/-- The ways in which a run can fail. -/
inductive Error where
  /-- The main stack has too few items for the opcode. -/
  | stackUnderflow (op : Opcode)
  /-- The alt stack is empty. -/
  | altStackUnderflow (op : Opcode)
  /-- A block is closed that was not opened, or stays open at the end. -/
  | unbalancedConditional
  /-- An item that is read as a number has too many bytes. -/
  | numberTooLong (length : Nat)
  /-- An item that is read as a number could be written in fewer bytes; `hex` is the item. -/
  | nonMinimalNumber (hex : String)
  /-- A result does not fit a machine word. -/
  | numericOverflow
  /-- The two items compared are different. -/
  | equalVerifyFailed
  /-- Something else than one item on the main stack is left at the end. -/
  | uncleanStack (main alt : Nat)
deriving DecidableEq, Repr

/-- The wording of a failure. -/
def Error.message : Error → String
  | stackUnderflow op => op.name ++ " on an empty stack"
  | altStackUnderflow op => op.name ++ " on an empty alt stack"
  | unbalancedConditional => "unbalanced OP_IF/OP_ENDIF"
  | numberTooLong length => s!"numeric operand of {length} bytes is too long"
  | nonMinimalNumber hex => s!"numeric operand 0x{hex} is not minimally encoded"
  | numericOverflow => "numeric overflow"
  | equalVerifyFailed => "OP_EQUALVERIFY failed"
  | uncleanStack main alt =>
    s!"the program finished with {main} items on the stack and {alt} on the alt stack"

end OneTimeSig.Script
