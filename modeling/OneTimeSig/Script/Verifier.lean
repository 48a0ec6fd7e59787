import OneTimeSig.Params
import OneTimeSig.Script.Program

/-!
# The verifier program

The program that checks a signature on the stack machine. It depends on the number of digits and
the depth of the trees only; what depends on the witness is left to its conditionals.

The witness of each digit is its siblings, its preimage and its control byte, so the control byte
of the last digit is on top, and the digits are processed from the last to the first. One digit
leaves its control byte in front of the digest and its recovered root in front of the roots, both on
the alt stack. At the end the hash of the roots has to be the public key.

A control byte is not an operand as it stands: `00` and `80` are not minimal, and `81` to `ff` write
negative numbers. A copy is brought to the number from 0 to 255 that it stands for, and from that
the directions are split off bit by bit, the highest first, so that the alt stack returns the lowest
first.
-/

namespace OneTimeSig.Script.Verifier

/-- A line that carries out an opcode. -/
def op (code : Opcode) : Line :=
  .code (.op code)

/-- Lines that carry out opcodes in turn. -/
def ops (codes : List Opcode) : Program :=
  codes.map op

/-- A line that pushes a number. -/
def push (n : Int) : Line :=
  .code (.pushNumber n)

/-- Replaces the top by `replacement` when it is the byte `raw`. -/
def replaceByte (raw : UInt8) (replacement : Int) : Program :=
  [op .dup, .code (.pushBytes [raw]), op .equal, op .opIf, op .drop, push replacement, op .endIf]

/-- Replaces a control byte by the number from 0 to 255 that it stands for. -/
def normalize : Program :=
  replaceByte 0x00 0 ++ replaceByte 0x80 128
    ++ [op .dup, push 0, op .lessThan, op .opIf, push 128, op .swap, op .sub, op .endIf]

/-- Moves the bit of a weight from the number on top to the alt stack. -/
def splitBit (weight : Int) : Program :=
  [op .dup, push weight, op .greaterThanOrEqual, op .dup, op .toAltStack, op .opIf, push weight,
    op .sub, op .endIf]

/-- Sets the control byte aside, splits its bits off and hashes the leaf. -/
def leafLines (digit depth : Nat) : Program :=
  [.comment s!"*** digit {digit} of <sighash>"] ++ ops [.dup, .toAltStack]
    ++ [.comment s!"digit {digit}: control byte to number"] ++ ops [.dup] ++ normalize
    ++ [.comment s!"digit {digit}: control byte to direction bits"]
    ++ (List.range depth).reverse.flatMap (fun bit => splitBit (1 <<< bit : Nat)) ++ ops [.drop]
    ++ [.comment s!"digit {digit}: leaf = hash160(control || preimage)"]
    ++ ops [.swap, .cat, .hash160]

/-- Joins the node on top with its sibling, which goes to the left when the direction is set. -/
def levelLines (digit depth level : Nat) : Program :=
  .comment (s!"digit {digit}: merkle step " ++ s!"{level + 1} of {depth}")
    :: ops [.swap, .fromAltStack, .opIf, .swap, .endIf, .cat, .hash160]

/-- Sets the root of the first processed digit aside. -/
def firstLines (digit : Nat) : Program :=
  .comment s!"*** digit {digit}: push state to alt-stack" :: ops [.toAltStack]

/-- Puts the control byte in front of the digest and the root in front of the roots. -/
def nextLines (digit : Nat) : Program :=
  .comment s!"*** digit {digit}: update state on alt-stack"
    :: ops [.fromAltStack, .fromAltStack, .swap, .fromAltStack, .cat, .toAltStack, .cat,
      .toAltStack]

/-- The lines of one digit among `digits`. -/
def digitLines (digits depth digit : Nat) : Program :=
  leafLines digit depth ++ (List.range depth).flatMap (levelLines digit depth)
    ++ (if digit + 1 = digits then firstLines digit else nextLines digit) ++ [.comment ""]

/-- Compares the hash of the roots with the public key and brings the digest back. -/
def finalLines : Program :=
  .comment "*** finished building the sighash and pubkey" :: ops [.fromAltStack, .hash256]
    ++ [.code .pushPublicKey] ++ ops [.equalVerify, .fromAltStack]

/-- The verifier program for so many digits with trees of the depth. -/
def program (digits depth : Nat) : Program :=
  .comment "witness script" :: (List.range digits).reverse.flatMap (digitLines digits depth)
    ++ finalLines

/-- The deepest tree whose leaves a control byte can address. -/
def maxDepth : Nat := 8

/-- The verifier program of the parameters, if they make a scheme. -/
def compile (p : Params) : Except OneTimeSig.Error Program := do
  let scheme ← Scheme.ofParams p
  if maxDepth < scheme.depth then throw (.treeTooDeep scheme.depth maxDepth)
  return program scheme.digits scheme.depth

end OneTimeSig.Script.Verifier
