import OneTimeSig.Script.Program

/-!
# The stack machine

The machine has a main stack and an alt stack of byte strings. `execute` pushes the witness, runs
the instructions in order and returns the one item that is left. Blocks between `OP_IF` and
`OP_ENDIF` are kept track of by a list with one truth value for each open block; an instruction
takes effect when all of them are true.
-/

namespace OneTimeSig.Script

/-- The two stacks, with the top first. -/
structure State where
  /-- The stack that most instructions work on. -/
  main : List Bytes
  /-- The stack that items are set aside on. -/
  alt : List Bytes
deriving DecidableEq

namespace Machine

/-- Takes a number off a stack. -/
def popNumber (op : Opcode) : List Bytes → Except Error (Int × List Bytes)
  | [] => .error (.stackUnderflow op)
  | item :: rest => do return (← Number.decode item, rest)

/-- Takes two numbers off a stack, the lower one first in the pair. -/
def popNumbers (op : Opcode) (stack : List Bytes) : Except Error (Int × Int × List Bytes) := do
  let (b, stack) ← popNumber op stack
  let (a, stack) ← popNumber op stack
  return (a, b, stack)

/-- Carries out an opcode. Those that open and close blocks are left to `run`. -/
def step (op : Opcode) (s : State) : Except Error State :=
  match op with
  | .dup =>
    match s.main with
    | a :: main => .ok { s with main := a :: a :: main }
    | _ => .error (.stackUnderflow op)
  | .drop =>
    match s.main with
    | _ :: main => .ok { s with main }
    | _ => .error (.stackUnderflow op)
  | .swap =>
    match s.main with
    | b :: a :: main => .ok { s with main := a :: b :: main }
    | _ => .error (.stackUnderflow op)
  | .toAltStack =>
    match s.main with
    | a :: main => .ok { main, alt := a :: s.alt }
    | _ => .error (.stackUnderflow op)
  | .fromAltStack =>
    match s.alt with
    | a :: alt => .ok { main := a :: s.main, alt }
    | _ => .error (.altStackUnderflow op)
  | .cat =>
    match s.main with
    | b :: a :: main => .ok { s with main := (a ++ b) :: main }
    | _ => .error (.stackUnderflow op)
  | .hash160 =>
    match s.main with
    | a :: main => .ok { s with main := (OneTimeSig.hash160 a).toList :: main }
    | _ => .error (.stackUnderflow op)
  | .hash256 =>
    match s.main with
    | a :: main => .ok { s with main := (OneTimeSig.hash256 a).toList :: main }
    | _ => .error (.stackUnderflow op)
  | .sub => do
    let (a, b, main) ← popNumbers op s.main
    let difference ← Number.subtract a b
    return { s with main := Number.encode difference :: main }
  | .lessThan => do
    let (a, b, main) ← popNumbers op s.main
    return { s with main := Number.ofBool (a < b) :: main }
  | .greaterThanOrEqual => do
    let (a, b, main) ← popNumbers op s.main
    return { s with main := Number.ofBool (b ≤ a) :: main }
  | .equal =>
    match s.main with
    | b :: a :: main => .ok { s with main := Number.ofBool (a == b) :: main }
    | _ => .error (.stackUnderflow op)
  | .equalVerify =>
    match s.main with
    | b :: a :: main => if a = b then .ok { s with main } else .error .equalVerifyFailed
    | _ => .error (.stackUnderflow op)
  | .opIf | .endIf => .ok s

/-- Carries out an instruction. -/
def perform (publicKey : PublicKey) (instruction : Instruction) (s : State) : Except Error State :=
  match instruction with
  | .op code => step code s
  | .pushNumber n => .ok { s with main := Number.encode n :: s.main }
  | .pushBytes bytes => .ok { s with main := bytes :: s.main }
  | .pushPublicKey => .ok { s with main := publicKey.toList :: s.main }

/-- Runs the instructions inside the open blocks, the innermost first. A block that is opened where
nothing takes effect is not taken either, and pops nothing. -/
def run (publicKey : PublicKey) : List Instruction → (blocks : List Bool) → State →
    Except Error State
  | [], blocks, s => if blocks.isEmpty then .ok s else .error .unbalancedConditional
  | .op .opIf :: rest, blocks, s =>
    if blocks.all id then
      match s.main with
      | condition :: main =>
        run publicKey rest (Number.isTrue condition :: blocks) { s with main }
      | [] => .error (.stackUnderflow .opIf)
    else run publicKey rest (false :: blocks) s
  | .op .endIf :: rest, blocks, s =>
    match blocks with
    | _ :: blocks => run publicKey rest blocks s
    | [] => .error .unbalancedConditional
  | instruction :: rest, blocks, s =>
    if blocks.all id then do
      let next ← perform publicKey instruction s
      run publicKey rest blocks next
    else run publicKey rest blocks s

/-- The state before the first instruction: the witness is pushed item by item. -/
def start (witness : List Bytes) : State :=
  ⟨witness.reverse, []⟩

/-- The item that is left at the end. -/
def result (s : State) : Except Error Bytes :=
  match s with
  | ⟨[out], []⟩ => .ok out
  | _ => .error (.uncleanStack s.main.length s.alt.length)

/-- Runs a program on a witness. -/
def execute (program : Program) (publicKey : PublicKey) (witness : List Bytes) :
    Except Error Bytes := do
  result (← run publicKey program.instructions [] (start witness))

end Machine

end OneTimeSig.Script
