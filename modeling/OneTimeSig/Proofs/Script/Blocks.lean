import OneTimeSig.Proofs.Outcome
import OneTimeSig.Script.Machine

/-!
# Runs of balanced programs

`Machine.run` goes through a program instruction by instruction and keeps the open blocks in a
list. A program that closes exactly the blocks it opens (`Balanced`) can be looked at as one step:
inside taken blocks it has the effect that it has on its own, and elsewhere it has none
(`run_balanced`). From this follow the two laws that a program is run by: `run_append` for programs
one after the other, and `run_block` for a block that stands in front of more instructions.
-/

namespace OneTimeSig.Script

/-- Instructions that neither open nor close a block. -/
def Instruction.IsPlain (i : Instruction) : Prop :=
  i ≠ .op .opIf ∧ i ≠ .op .endIf

instance (i : Instruction) : Decidable i.IsPlain :=
  inferInstanceAs (Decidable (_ ∧ _))

/-- Programs that close exactly the blocks that they open. -/
inductive Balanced : List Instruction → Prop where
  /-- Nothing is open. -/
  | nil : Balanced []
  /-- An instruction that leaves the blocks as they are. -/
  | plain {i : Instruction} {rest : List Instruction} (hi : i.IsPlain) (hr : Balanced rest) :
    Balanced (i :: rest)
  /-- A block and what stands behind it. -/
  | block {body rest : List Instruction} (hb : Balanced body) (hr : Balanced rest) :
    Balanced (.op .opIf :: body ++ .op .endIf :: rest)

namespace Balanced

/-- Balanced programs one after the other are balanced. -/
theorem append {p q : List Instruction} (hp : Balanced p) (hq : Balanced q) :
    Balanced (p ++ q) := by
  induction hp with
  | nil => exact hq
  | plain hi _ ih => exact .plain hi ih
  | @block body rest hb _ _ ih =>
    rw [List.append_assoc, List.cons_append]
    exact .block hb ih

/-- A balanced program over and over is balanced. -/
theorem flatten_replicate {p : List Instruction} (hp : Balanced p) (n : Nat) :
    Balanced (List.replicate n p).flatten := by
  induction n with
  | zero => exact .nil
  | succ n ih =>
    rw [List.replicate_succ, List.flatten_cons]
    exact hp.append ih

end Balanced

namespace Machine

variable (pk : PublicKey)

/-- A plain instruction takes effect when all open blocks are taken. -/
theorem run_plain {i : Instruction} (hi : i.IsPlain) (rest : List Instruction)
    (blocks : List Bool) (s : State) :
    run pk (i :: rest) blocks s =
      if blocks.all id then perform pk i s >>= run pk rest blocks else run pk rest blocks s :=
  run.eq_5 pk blocks s i rest hi.1 hi.2

/-- A balanced program behaves inside open blocks as one step: where all of them are taken it does
what it does on its own, and elsewhere it does nothing. -/
theorem run_balanced {p : List Instruction} (hp : Balanced p) (rest : List Instruction)
    (blocks : List Bool) (s : State) :
    run pk (p ++ rest) blocks s =
      if blocks.all id then run pk p [] s >>= run pk rest blocks else run pk rest blocks s := by
  -- The induction is on the shape of the program. The open blocks vary, since the body of a block
  -- is run inside one more.
  induction hp generalizing rest blocks s with
  | nil => simp [run]
  | @plain i p hi _ ih =>
    -- On its own the program is inside no block, so there the instruction takes effect.
    rw [List.cons_append, run_plain pk hi, run_plain pk hi, if_pos (by rfl : [].all id = true),
      bind_assoc]
    split_ifs with h
    · apply bind_congr
      intro t
      rw [ih, if_pos h]
    · rw [ih, if_neg h]
  | @block body q _ _ ihb ihq =>
    rw [List.append_assoc, List.cons_append, List.cons_append, run.eq_2]
    split_ifs with h
    · -- The block stands where instructions take effect, so its condition is read.
      rw [List.cons_append, run.eq_2, if_pos (by rfl : [].all id = true)]
      cases s.main with
      | nil => rfl
      | cons c main =>
        dsimp only
        rw [ihb, ihb, List.all_cons, List.all_cons, h, Bool.and_true, List.all_nil, Bool.and_true]
        split_ifs with hc
        · rw [bind_assoc]
          apply bind_congr
          intro t
          rw [run.eq_3, run.eq_3, ihq, if_pos h]
        · rw [run.eq_3, run.eq_3, ihq, if_pos h]
    · -- The block is skipped with what it holds.
      rw [ihb, if_neg (by simp), run.eq_3, ihq, if_neg h]

/-- Programs one after the other are run one after the other. -/
theorem run_append {p : List Instruction} (hp : Balanced p) (q : List Instruction) (s : State) :
    run pk (p ++ q) [] s = run pk p [] s >>= run pk q [] := by
  rw [run_balanced pk hp, if_pos (by rfl)]

/-- A block is run or skipped as its condition says, and then the run goes on behind it. -/
theorem run_block {body : List Instruction} (hb : Balanced body) (rest : List Instruction)
    (c : Bytes) (main alt : List Bytes) :
    run pk (.op .opIf :: (body ++ .op .endIf :: rest)) [] ⟨c :: main, alt⟩ =
      (if Number.isTrue c then run pk body [] ⟨main, alt⟩ else .ok ⟨main, alt⟩) >>=
        run pk rest [] := by
  rw [run.eq_2, if_pos (by rfl : [].all id = true)]
  dsimp only
  rw [run_balanced pk hb, List.all_cons, List.all_nil, Bool.and_true, id_eq]
  split_ifs with hc
  · apply bind_congr
    intro t
    rw [run.eq_3]
  · rw [run.eq_3, ok_bind]

end Machine

end OneTimeSig.Script
