import Mathlib.Algebra.Group.Nat.Defs
import OneTimeSig.Proofs.Script.Blocks
import OneTimeSig.Script.Verifier

/-!
# The instructions of the verifier program

The lines of the verifier program mention the number of the digit in their comments only. Without
comments the program is a first block of instructions, one more block over and over, and an end
(`instructions_program`), and both blocks depend on nothing but the depth of the trees. Each part is
balanced, so that it can be run as one step.
-/

namespace OneTimeSig.Script

namespace Program

@[simp]
theorem instructions_nil : instructions [] = [] := rfl

@[simp]
theorem instructions_comment (text : String) (p : Program) :
    instructions (.comment text :: p) = instructions p := rfl

@[simp]
theorem instructions_code (i : Instruction) (p : Program) :
    instructions (.code i :: p) = i :: instructions p := rfl

@[simp]
theorem instructions_append (p q : Program) :
    instructions (p ++ q) = instructions p ++ instructions q :=
  List.filterMap_append

/-- The instructions of parts in a row are those of the parts. -/
theorem instructions_flatMap {α : Type} (as : List α) (f : α → Program) :
    instructions (as.flatMap f) = as.flatMap fun a => instructions (f a) := by
  induction as with
  | nil => rfl
  | cons a as ih => rw [List.flatMap_cons, instructions_append, ih, List.flatMap_cons]

end Program

namespace Verifier

open Program (instructions_flatMap)

/-- Opcodes in turn as instructions. -/
def opCode (codes : List Opcode) : List Instruction :=
  codes.map .op

@[simp]
theorem instructions_ops (codes : List Opcode) : (ops codes).instructions = opCode codes := by
  unfold ops opCode
  induction codes with
  | nil => rfl
  | cons code codes ih =>
    rw [List.map_cons, List.map_cons, ← ih]
    rfl

/-- The instructions that replace a byte by a number. -/
def replaceCode (raw : UInt8) (replacement : Int) : List Instruction :=
  [.op .dup, .pushBytes [raw], .op .equal] ++
    .op .opIf :: ([.op .drop, .pushNumber replacement] ++ .op .endIf :: [])

/-- The instructions that bring a negative number to one above 128. -/
def signCode : List Instruction :=
  [.op .dup, .pushNumber 0, .op .lessThan] ++
    .op .opIf :: ([.pushNumber 128, .op .swap, .op .sub] ++ .op .endIf :: [])

/-- The instructions that bring a control item to its number. -/
def normalizeCode : List Instruction :=
  replaceCode 0x00 0 ++ replaceCode 0x80 128 ++ signCode

/-- The instructions that split one direction off. -/
def splitBitCode (weight : Int) : List Instruction :=
  [.op .dup, .pushNumber weight, .op .greaterThanOrEqual, .op .dup, .op .toAltStack] ++
    .op .opIf :: ([.pushNumber weight, .op .sub] ++ .op .endIf :: [])

/-- The instructions that split all directions off, the highest first. -/
def splitCode : (depth : Nat) → List Instruction
  | 0 => []
  | depth + 1 => splitBitCode (2 ^ depth : Nat) ++ splitCode depth

/-- The instructions up to the leaf. -/
def leafCode (depth : Nat) : List Instruction :=
  opCode [.dup, .toAltStack, .dup] ++ normalizeCode ++ splitCode depth
    ++ opCode [.drop, .swap, .cat, .hash160]

/-- The instructions up to the string that the leaf is the hash of. -/
def leafInputCode (depth : Nat) : List Instruction :=
  opCode [.dup, .toAltStack, .dup] ++ normalizeCode ++ splitCode depth
    ++ opCode [.drop, .swap, .cat]

/-- The leaf is hashed at the end. -/
theorem leafCode_eq (depth : Nat) : leafCode depth = leafInputCode depth ++ opCode [.hash160] := by
  unfold leafCode leafInputCode
  rw [List.append_assoc _ (opCode _)]
  rfl

/-- The instructions of one level. -/
def levelCode : List Instruction :=
  opCode [.swap, .fromAltStack] ++
    .op .opIf :: (opCode [.swap] ++ .op .endIf :: opCode [.cat, .hash160])

/-- The instructions of one level up to the string that its node is the hash of. -/
def levelInputCode : List Instruction :=
  opCode [.swap, .fromAltStack] ++ .op .opIf :: (opCode [.swap] ++ .op .endIf :: opCode [.cat])

/-- The node is hashed at the end. -/
theorem levelCode_eq : levelCode = levelInputCode ++ opCode [.hash160] := rfl

/-- The instructions from the items of a digit to its root. -/
def rootCode (depth : Nat) : List Instruction :=
  leafCode depth ++ (List.replicate depth levelCode).flatten

/-- The instructions of the digit that is processed first. -/
def firstCode (depth : Nat) : List Instruction :=
  rootCode depth ++ opCode [.toAltStack]

/-- The instructions of any other digit. -/
def nextCode (depth : Nat) : List Instruction :=
  rootCode depth ++ opCode [.fromAltStack, .fromAltStack, .swap, .fromAltStack, .cat, .toAltStack,
    .cat, .toAltStack]

/-- The instructions behind the last digit. -/
def finalCode : List Instruction :=
  opCode [.fromAltStack, .hash256] ++ .pushPublicKey :: opCode [.equalVerify, .fromAltStack]

/-- The instructions of so many digits. -/
def digitsCode (depth : Nat) : (digits : Nat) → List Instruction
  | 0 => []
  | n + 1 => firstCode depth ++ (List.replicate n (nextCode depth)).flatten

/-! ## The lines hold these instructions -/

theorem instructions_splitLines (depth : Nat) :
    Program.instructions
        ((List.range depth).reverse.flatMap fun bit => splitBit (1 <<< bit : Nat)) =
      splitCode depth := by
  induction depth with
  | zero => rfl
  | succ depth ih =>
    rw [List.range_succ, List.reverse_append, List.reverse_singleton, List.singleton_append,
      List.flatMap_cons, Program.instructions_append, ih, Nat.one_shiftLeft]
    rfl

theorem instructions_leafLines (digit depth : Nat) :
    (leafLines digit depth).instructions = leafCode depth := by
  unfold leafLines leafCode
  have hnormalize : normalize.instructions = normalizeCode := rfl
  simp only [Program.instructions_append, Program.instructions_comment, instructions_ops,
    instructions_splitLines, hnormalize, List.nil_append, opCode, List.map_cons, List.map_nil,
    List.append_assoc, List.cons_append]

theorem instructions_levelLines (digit depth level : Nat) :
    (levelLines digit depth level).instructions = levelCode := rfl

theorem instructions_digitLines (digits depth digit : Nat) :
    (digitLines digits depth digit).instructions =
      if digit + 1 = digits then firstCode depth else nextCode depth := by
  -- The level and the digit are mentioned in comments only, so all levels are the same.
  have hlevels : Program.instructions ((List.range depth).flatMap (levelLines digit depth)) =
      (List.replicate depth levelCode).flatten := by
    rw [instructions_flatMap, List.flatMap_def]
    congr 1
    rw [List.eq_replicate_iff]
    simp [instructions_levelLines]
  unfold digitLines firstCode nextCode rootCode
  rw [Program.instructions_append, Program.instructions_append, Program.instructions_append,
    instructions_leafLines, hlevels, Program.instructions_comment, Program.instructions_nil,
    List.append_nil]
  split_ifs
  · rfl
  · rfl

/-- The program is a block for the last digit, the same block for every other digit, and an end. -/
theorem instructions_program (digits depth : Nat) :
    (program digits depth).instructions = digitsCode depth digits ++ finalCode := by
  have hdigits : Program.instructions
      ((List.range digits).reverse.flatMap (digitLines digits depth)) = digitsCode depth digits := by
    rw [instructions_flatMap]
    cases digits with
    | zero => rfl
    | succ n =>
      -- The digit with the highest number comes first, and the test finds no other one.
      rw [List.range_succ, List.reverse_append, List.reverse_singleton, List.singleton_append,
        List.flatMap_cons, instructions_digitLines, if_pos rfl, digitsCode, List.flatMap_def]
      congr 2
      rw [List.eq_replicate_iff, List.length_map, List.length_reverse, List.length_range]
      refine ⟨rfl, fun code hcode => ?_⟩
      obtain ⟨digit, hdigit, rfl⟩ := List.mem_map.mp hcode
      rw [List.mem_reverse, List.mem_range] at hdigit
      rw [instructions_digitLines, if_neg (by omega)]
  unfold program
  rw [List.cons_append, Program.instructions_comment, Program.instructions_append, hdigits]
  rfl

/-! ## Every part is balanced -/

/-- Instructions that neither open nor close a block are balanced. -/
theorem balanced_of_plain {p : List Instruction} (h : ∀ i ∈ p, i.IsPlain) : Balanced p := by
  induction p with
  | nil => exact .nil
  | cons i p ih =>
    rw [List.forall_mem_cons] at h
    exact .plain h.1 (ih h.2)

theorem balanced_replaceCode (raw : UInt8) (replacement : Int) :
    Balanced (replaceCode raw replacement) :=
  (balanced_of_plain (by simp [Instruction.IsPlain])).append
    (.block (balanced_of_plain (by simp [Instruction.IsPlain])) .nil)

theorem balanced_signCode : Balanced signCode :=
  (balanced_of_plain (by decide)).append (.block (balanced_of_plain (by decide)) .nil)

theorem balanced_normalizeCode : Balanced normalizeCode :=
  ((balanced_replaceCode _ _).append (balanced_replaceCode _ _)).append balanced_signCode

theorem balanced_splitBitCode (weight : Int) : Balanced (splitBitCode weight) :=
  (balanced_of_plain (by simp [Instruction.IsPlain])).append
    (.block (balanced_of_plain (by simp [Instruction.IsPlain])) .nil)

theorem balanced_splitCode (depth : Nat) : Balanced (splitCode depth) := by
  induction depth with
  | zero => exact .nil
  | succ depth ih => exact (balanced_splitBitCode _).append ih

theorem balanced_leafInputCode (depth : Nat) : Balanced (leafInputCode depth) :=
  (((balanced_of_plain (by decide)).append balanced_normalizeCode).append
    (balanced_splitCode depth)).append (balanced_of_plain (by decide))

theorem balanced_leafCode (depth : Nat) : Balanced (leafCode depth) :=
  leafCode_eq depth ▸ (balanced_leafInputCode depth).append (balanced_of_plain (by decide))

theorem balanced_levelInputCode : Balanced levelInputCode :=
  (balanced_of_plain (by decide)).append
    (.block (balanced_of_plain (by decide)) (balanced_of_plain (by decide)))

theorem balanced_levelCode : Balanced levelCode :=
  balanced_levelInputCode.append (balanced_of_plain (by decide))

theorem balanced_rootCode (depth : Nat) : Balanced (rootCode depth) :=
  (balanced_leafCode depth).append (balanced_levelCode.flatten_replicate depth)

theorem balanced_firstCode (depth : Nat) : Balanced (firstCode depth) :=
  (balanced_rootCode depth).append (balanced_of_plain (by decide))

theorem balanced_nextCode (depth : Nat) : Balanced (nextCode depth) :=
  (balanced_rootCode depth).append (balanced_of_plain (by decide))

theorem balanced_digitsCode (depth digits : Nat) : Balanced (digitsCode depth digits) := by
  cases digits with
  | zero => exact .nil
  | succ n => exact (balanced_firstCode depth).append ((balanced_nextCode depth).flatten_replicate n)

end Verifier

end OneTimeSig.Script
