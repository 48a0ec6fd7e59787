/-!
# The opcodes of the stack machine
-/

namespace OneTimeSig.Script

/-- The operations that a verifier program is made of. -/
inductive Opcode where
  /-- Copies the top of the main stack. -/
  | dup
  /-- Removes the top of the main stack. -/
  | drop
  /-- Exchanges the two top items of the main stack. -/
  | swap
  /-- Moves the top of the main stack onto the alt stack. -/
  | toAltStack
  /-- Moves the top of the alt stack onto the main stack. -/
  | fromAltStack
  /-- Joins the two top items, the upper one behind the lower one. -/
  | cat
  /-- Replaces the top by its `hash160`. -/
  | hash160
  /-- Replaces the top by its `hash256`. -/
  | hash256
  /-- Opens a block that runs when the top, which it removes, is true. -/
  | opIf
  /-- Closes the innermost open block. -/
  | endIf
  /-- Subtracts the top from the number below it. -/
  | sub
  /-- Tells whether the number below the top is less than the top. -/
  | lessThan
  /-- Tells whether the number below the top is at least the top. -/
  | greaterThanOrEqual
  /-- Tells whether the two top items are the same bytes. -/
  | equal
  /-- Fails unless the two top items are the same bytes, and removes them. -/
  | equalVerify
deriving DecidableEq, Repr

/-- The name of an opcode in a listing. -/
def Opcode.name : Opcode → String
  | dup => "OP_DUP"
  | drop => "OP_DROP"
  | swap => "OP_SWAP"
  | toAltStack => "OP_TOALTSTACK"
  | fromAltStack => "OP_FROMALTSTACK"
  | cat => "OP_CAT"
  | hash160 => "OP_HASH160"
  | hash256 => "OP_HASH256"
  | opIf => "OP_IF"
  | endIf => "OP_ENDIF"
  | sub => "OP_SUB"
  | lessThan => "OP_LESSTHAN"
  | greaterThanOrEqual => "OP_GREATERTHANOREQUAL"
  | equal => "OP_EQUAL"
  | equalVerify => "OP_EQUALVERIFY"

/-- Every opcode, in the order of the declaration. -/
def Opcode.all : List Opcode :=
  [dup, drop, swap, toAltStack, fromAltStack, cat, hash160, hash256, opIf, endIf, sub, lessThan,
    greaterThanOrEqual, equal, equalVerify]

/-- The opcode of a name. -/
def Opcode.ofName? (name : String) : Option Opcode :=
  all.find? fun op => op.name == name

end OneTimeSig.Script
