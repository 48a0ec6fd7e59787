import OneTimeSig.Proofs.Script.Blocks
import OneTimeSig.Proofs.Script.Number

/-!
# What an instruction can fail with

An instruction fails when it asks for an item that is not there, when it refuses an operand, and when
the two items that it compares are different. `OfInstruction` says of an outcome that it is no failure
of another kind. Every instruction is like this (`ofInstruction_perform`). That a difference could
leave a machine word is tested for, but operands are too small for it to happen, so no program at all
ends with it (`execute_ne_numericOverflow`).
-/

namespace OneTimeSig.Script.Machine

variable {α β : Type}

/-- The outcome is none of the failures that no instruction has: those of a program as a whole, and
that of a number which leaves a machine word. -/
def OfInstruction : Except Error α → Prop
  | .error .unbalancedConditional | .error .numericOverflow | .error (.uncleanStack ..) => False
  | _ => True

/-- Two steps that fail as instructions do. -/
theorem OfInstruction.bind {x : Except Error α} {f : α → Except Error β} (hx : OfInstruction x)
    (hf : ∀ a, x = .ok a → OfInstruction (f a)) : OfInstruction (x >>= f) := by
  cases x with
  | ok a => exact hf a rfl
  | error e => cases e <;> exact hx

/-- An operand is read or refused. -/
theorem ofInstruction_decode (item : Bytes) : OfInstruction (Number.decode item) := by
  unfold Number.decode
  split_ifs <;> trivial

/-- An operand is taken off a stack or refused. -/
theorem ofInstruction_popNumber (op : Opcode) (stack : List Bytes) :
    OfInstruction (popNumber op stack) := by
  cases stack with
  | nil => trivial
  | cons item rest => exact (ofInstruction_decode item).bind fun _ _ => trivial

/-- Two operands are taken off a stack or one of them is refused. -/
theorem ofInstruction_popNumbers (op : Opcode) (stack : List Bytes) :
    OfInstruction (popNumbers op stack) :=
  (ofInstruction_popNumber op stack).bind fun _ _ =>
    (ofInstruction_popNumber op _).bind fun _ _ => trivial

/-- An operand is small. -/
theorem natAbs_le_of_popNumber {op : Opcode} {stack rest : List Bytes} {n : Int}
    (h : popNumber op stack = .ok (n, rest)) : n.natAbs ≤ 2 ^ 31 - 1 := by
  cases stack with
  | nil => nomatch h
  | cons item _ =>
    obtain ⟨m, hm, hpair⟩ := bind_eq_ok_iff.mp h
    cases hpair
    exact Number.natAbs_le_of_decode hm

/-- Both of two operands are small. -/
theorem natAbs_le_of_popNumbers {op : Opcode} {stack rest : List Bytes} {a b : Int}
    (h : popNumbers op stack = .ok (a, b, rest)) :
    a.natAbs ≤ 2 ^ 31 - 1 ∧ b.natAbs ≤ 2 ^ 31 - 1 := by
  obtain ⟨⟨b', stack'⟩, hb, h⟩ := bind_eq_ok_iff.mp h
  obtain ⟨⟨a', rest'⟩, ha, h⟩ := bind_eq_ok_iff.mp h
  cases h
  exact ⟨natAbs_le_of_popNumber ha, natAbs_le_of_popNumber hb⟩

/-- One opcode. -/
theorem ofInstruction_step (op : Opcode) (s : State) : OfInstruction (step op s) := by
  obtain ⟨main, alt⟩ := s
  cases op with
  | dup | drop | toAltStack | hash160 | hash256 => cases main <;> trivial
  | fromAltStack => cases alt <;> trivial
  | swap | cat | equal =>
    match main with
    | [] | [_] | _ :: _ :: _ => trivial
  | equalVerify =>
    match main with
    | [] | [_] => trivial
    | b :: a :: main =>
      unfold step
      dsimp only
      split_ifs <;> trivial
  | sub =>
    -- The difference of two operands fits a machine word.
    refine (ofInstruction_popNumbers .sub main).bind fun ⟨a, b, rest⟩ hpop => ?_
    obtain ⟨ha, hb⟩ := natAbs_le_of_popNumbers hpop
    dsimp only
    rw [Number.subtract_eq_ok ha hb]
    trivial
  | lessThan => exact (ofInstruction_popNumbers .lessThan main).bind fun _ _ => trivial
  | greaterThanOrEqual =>
    exact (ofInstruction_popNumbers .greaterThanOrEqual main).bind fun _ _ => trivial
  | opIf | endIf => trivial

variable (pk : PublicKey)

/-- One instruction. -/
theorem ofInstruction_perform (i : Instruction) (s : State) : OfInstruction (perform pk i s) := by
  cases i with
  | op code => exact ofInstruction_step code s
  | pushNumber n | pushBytes bytes | pushPublicKey => trivial

/-- A run ends as instructions do, or for its blocks. -/
theorem run_cases (p : List Instruction) (blocks : List Bool) (s : State) :
    OfInstruction (run pk p blocks s) ∨ run pk p blocks s = .error .unbalancedConditional := by
  induction p generalizing blocks s with
  | nil =>
    unfold run
    split_ifs
    · exact .inl trivial
    · exact .inr rfl
  | cons i p ih =>
    rcases eq_or_ne i (.op .opIf) with rfl | hif
    · rw [run.eq_2]
      split_ifs
      · cases s.main with
        | nil => exact .inl trivial
        | cons condition main => exact ih _ _
      · exact ih _ s
    rcases eq_or_ne i (.op .endIf) with rfl | hend
    · cases blocks with
      | nil => exact .inr rfl
      | cons b blocks => exact ih blocks s
    rw [run_plain pk ⟨hif, hend⟩]
    split_ifs
    · have hi := ofInstruction_perform pk i s
      cases hnext : perform pk i s with
      | ok next => exact ih blocks next
      | error e =>
        rw [hnext] at hi
        exact .inl (hi.bind (by simp))
    · exact ih blocks s

/-- No program fails for a number that leaves a machine word. -/
theorem execute_ne_numericOverflow (program : Program) (witness : List Bytes) :
    execute program pk witness ≠ .error .numericOverflow := by
  intro h
  rcases bind_eq_error_iff.mp h with hrun | ⟨s, -, hresult⟩
  · have hcases := run_cases pk program.instructions [] (start witness)
    rw [hrun] at hcases
    rcases hcases with hof | heq
    · exact hof
    · nomatch heq
  · unfold result at hresult
    split at hresult
    · nomatch hresult
    · nomatch hresult

end OneTimeSig.Script.Machine
