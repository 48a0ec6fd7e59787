import OneTimeSig.Hash
import OneTimeSig.Script.Number

/-!
# Programs and their listings

A program is a list of lines, each an instruction or a comment. It does not contain the public key:
an instruction stands in its place, and the key is filled in when the program is listed or run.
-/

namespace OneTimeSig.Script

/-- One step of a program. -/
inductive Instruction where
  /-- Carries out an opcode. -/
  | op (code : Opcode)
  /-- Pushes the shortest encoding of a number. -/
  | pushNumber (n : Int)
  /-- Pushes the bytes as they are. -/
  | pushBytes (bytes : Bytes)
  /-- Pushes the public key. -/
  | pushPublicKey
deriving DecidableEq

/-- A push of bytes in a listing. -/
def literal (bytes : Bytes) : String :=
  "<0x" ++ Hex.encode bytes ++ ">"

/-- A push of a number in a listing: small numbers have opcodes of their own. -/
def numberText (n : Int) : String :=
  if n = 0 then "OP_0"
  else if n = -1 then "OP_1NEGATE"
  else if 1 ≤ n ∧ n ≤ 16 then s!"OP_{n}"
  else literal (Number.encode n)

/-- An instruction in a listing. -/
def Instruction.text (publicKey : PublicKey) : Instruction → String
  | op code => code.name
  | pushNumber n => numberText n
  | pushBytes bytes => literal bytes
  | pushPublicKey => literal publicKey.toList

/-- One line of a program. -/
inductive Line where
  /-- A line for the reader. -/
  | comment (text : String)
  /-- A line for the machine. -/
  | code (instruction : Instruction)
deriving DecidableEq

/-- A line in a listing; an empty comment leaves the line empty. -/
def Line.text (publicKey : PublicKey) : Line → String
  | comment text => if text.isEmpty then "" else "// " ++ text
  | code instruction => instruction.text publicKey

/-- A sequence of lines. -/
abbrev Program := List Line

namespace Program

/-- The instructions of a program, without its comments. -/
def instructions (program : Program) : List Instruction :=
  program.filterMap fun
    | .comment _ => none
    | .code instruction => some instruction

/-- The text of a program with the public key filled in, every line ended by a line feed. -/
def listing (program : Program) (publicKey : PublicKey) : String :=
  String.join (program.map fun line => line.text publicKey ++ "\n")

end Program

end OneTimeSig.Script
