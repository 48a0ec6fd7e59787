import OneTimeSig.Proofs.Script.Failure

/-!
# Programs with nested blocks

A program whose blocks are balanced can be read as a tree (`Nested`): a block holds a program, and
more of the program stands behind it. It is read in one way only (`instructions_injective`). On the
tree a run needs no list of open blocks (`Nested.run`): a block takes its condition off the stack,
and what it holds is run or passed over as a whole. Both runs are the same (`run_instructions`).

A program that is not balanced closes a block that is not open, or ends inside one
(`exists_balanced`). In the first case it is run as far as that closing, in the second as if the
missing closings stood at its end, and then it fails (`run_unopened`, `run_unclosed`).
`execute_eq_nested_run` puts the cases together.
-/

namespace OneTimeSig.Script

/-! ## Counting -/

namespace Balanced

/-- A balanced program closes as many blocks as it opens. -/
theorem count_eq {p : List Instruction} (hp : Balanced p) :
    p.count (.op .opIf) = p.count (.op .endIf) := by
  induction hp with
  | nil => rfl
  | plain hi _ ih => rw [List.count_cons_of_ne hi.1, List.count_cons_of_ne hi.2, ih]
  | block _ _ ihb ihr =>
    rw [List.count_append, List.count_append, List.count_cons_self,
      List.count_cons_of_ne (by decide), List.count_cons_of_ne (by decide), List.count_cons_self,
      ihb, ihr]
    omega

/-- From the front, a balanced program has never closed more blocks than it has opened. -/
theorem count_take_le {p : List Instruction} (hp : Balanced p) (n : Nat) :
    (p.take n).count (.op .endIf) ≤ (p.take n).count (.op .opIf) := by
  induction hp generalizing n with
  | nil => simp
  | plain hi _ ih =>
    cases n with
    | zero => simp
    | succ n =>
      rw [List.take_succ_cons, List.count_cons_of_ne hi.1, List.count_cons_of_ne hi.2]
      exact ih n
  | @block body rest hb _ ihb ihr =>
    cases n with
    | zero => simp
    | succ n =>
      rw [List.cons_append, List.take_succ_cons, List.count_cons_of_ne (by decide),
        List.count_cons_self, List.take_append, List.count_append, List.count_append]
      cases hback : n - body.length with
      -- Only a part of what the block holds is taken.
      | zero =>
        have := ihb n
        rw [List.take_zero, List.count_nil, List.count_nil]
        omega
      -- The block is taken as a whole, and then a part of what stands behind it.
      | succ m =>
        have hbody := hb.count_eq
        have := ihr m
        rw [List.take_of_length_le (by omega), List.take_succ_cons, List.count_cons_self,
          List.count_cons_of_ne (by decide)]
        omega

end Balanced

/-- A program is balanced up to the first closing of a block that is not open, if there is one, and
otherwise when the missing closings are put at its end. -/
theorem exists_balanced (p : List Instruction) :
    (∃ front back, Balanced front ∧ p = front ++ .op .endIf :: back) ∨
      ∃ missing, Balanced (p ++ List.replicate missing (.op .endIf)) := by
  -- Behind an opening there is the block that it opens, and behind that a shorter program again.
  induction hlen : p.length using Nat.strong_induction_on generalizing p with
  | _ n ih =>
    subst hlen
    cases p with
    | nil => exact .inr ⟨0, .nil⟩
    | cons i p =>
      rcases eq_or_ne i (.op .endIf) with rfl | hend
      · exact .inl ⟨[], p, .nil, rfl⟩
      rcases eq_or_ne i (.op .opIf) with rfl | hif
      · rcases ih _ (by simp) p rfl with ⟨body, back, hbody, rfl⟩ | ⟨missing, hp⟩
        · rcases ih _ (by simp; omega) back rfl with ⟨front, back', hfront, rfl⟩ | ⟨missing, hback⟩
          · refine .inl ⟨_, back', .block hbody hfront, ?_⟩
            simp
          · refine .inr ⟨missing, ?_⟩
            have hblock := Balanced.block hbody hback
            simpa using hblock
        · refine .inr ⟨missing + 1, ?_⟩
          have hblock := Balanced.block hp .nil
          simpa [List.replicate_succ'] using hblock
      · rcases ih _ (by simp) p rfl with ⟨front, back, hfront, rfl⟩ | ⟨missing, hp⟩
        · exact .inl ⟨i :: front, back, .plain ⟨hif, hend⟩ hfront, rfl⟩
        · exact .inr ⟨missing, .plain ⟨hif, hend⟩ hp⟩

/-- A program is balanced when it closes as many blocks as it opens, and at no point more. -/
theorem balanced_iff_count (p : List Instruction) :
    Balanced p ↔ p.count (.op .opIf) = p.count (.op .endIf) ∧
      ∀ n ≤ p.length, (p.take n).count (.op .endIf) ≤ (p.take n).count (.op .opIf) := by
  constructor
  · intro hp
    exact ⟨hp.count_eq, fun n _ => hp.count_take_le n⟩
  · rintro ⟨hcount, htake⟩
    rcases exists_balanced p with ⟨front, back, hfront, rfl⟩ | ⟨missing, hp⟩
    · -- With the closing the front has closed one block more than it has opened.
      have hfew := htake (front.length + 1) (by simp)
      have hsplit : (front ++ .op .endIf :: back).take (front.length + 1) =
          front ++ [.op .endIf] := by
        rw [List.take_append, List.take_of_length_le (by omega), Nat.add_sub_cancel_left]
        rfl
      have heq := hfront.count_eq
      have hopening : List.count (Instruction.op .opIf) [.op .endIf] = 0 := rfl
      rw [hsplit, List.count_append, List.count_append, List.count_singleton_self, hopening] at hfew
      omega
    · have heq := hp.count_eq
      rw [List.count_append, List.count_append, List.count_replicate_self,
        List.count_replicate, if_neg (by decide)] at heq
      obtain rfl : missing = 0 := by omega
      simpa using hp

instance : DecidablePred Balanced :=
  fun p => decidable_of_iff _ (balanced_iff_count p).symm

/-! ## Trees -/

/-- A program with its blocks nested in each other. -/
inductive Nested where
  /-- Nothing. -/
  | nil
  /-- An instruction that leaves the blocks as they are, and what stands behind it. -/
  | plain (i : Instruction) (hi : i.IsPlain) (rest : Nested)
  /-- A block, and what stands behind it. -/
  | block (body rest : Nested)

namespace Nested

/-- The instructions in a row. -/
def instructions : Nested → List Instruction
  | nil => []
  | plain i _ rest => i :: rest.instructions
  | block body rest => .op .opIf :: body.instructions ++ .op .endIf :: rest.instructions

/-- Runs the program. A block takes its condition off the stack; if it is not true, nothing of what
the block holds is run. -/
def run (publicKey : PublicKey) : Nested → State → Except Error State
  | nil, s => .ok s
  | plain i _ rest, s => Machine.perform publicKey i s >>= rest.run publicKey
  | block body rest, s =>
    match s.main with
    | condition :: main =>
      if Number.isTrue condition then body.run publicKey { s with main } >>= rest.run publicKey
      else rest.run publicKey { s with main }
    | [] => .error (.stackUnderflow .opIf)

/-- The instructions of a tree are balanced. -/
theorem balanced_instructions (code : Nested) : Balanced code.instructions := by
  induction code with
  | nil => exact .nil
  | plain i hi rest ih => exact .plain hi ih
  | block body rest ihb ihr => exact .block ihb ihr

/-- A balanced program can be read as a tree. -/
theorem exists_instructions_eq {p : List Instruction} (hp : Balanced p) :
    ∃ code : Nested, code.instructions = p := by
  induction hp with
  | nil => exact ⟨.nil, rfl⟩
  | @plain i _ hi _ ih =>
    obtain ⟨rest, rfl⟩ := ih
    exact ⟨.plain i hi rest, rfl⟩
  | block _ _ ihb ihr =>
    obtain ⟨body, rfl⟩ := ihb
    obtain ⟨rest, rfl⟩ := ihr
    exact ⟨.block body rest, rfl⟩

/-- A tree is told from its instructions as far as the closing of the block that it stands in. -/
theorem instructions_append_inj {a b : Nested} {x y : List Instruction}
    (h : a.instructions ++ .op .endIf :: x = b.instructions ++ .op .endIf :: y) :
    a = b ∧ x = y := by
  -- What comes first tells the constructor: a closing, a plain instruction or an opening.
  induction a generalizing b x y with
  | nil =>
    cases b with
    | nil => exact ⟨rfl, List.tail_eq_of_cons_eq h⟩
    | plain i hi rest => exact absurd (List.head_eq_of_cons_eq h).symm hi.2
    | block body rest => nomatch h
  | plain i hi rest ih =>
    cases b with
    | nil => exact absurd (List.head_eq_of_cons_eq h) hi.2
    | plain j hj rest' =>
      obtain ⟨rfl, htail⟩ := List.cons_eq_cons.mp h
      obtain ⟨rfl, hback⟩ := ih htail
      exact ⟨rfl, hback⟩
    | block body rest' => exact absurd (List.head_eq_of_cons_eq h) hi.1
  | block body rest ihb ihr =>
    cases b with
    | nil => nomatch h
    | plain j hj rest' => exact absurd (List.head_eq_of_cons_eq h).symm hj.1
    | block body' rest' =>
      rw [instructions, instructions, List.append_assoc, List.append_assoc] at h
      obtain ⟨rfl, hrest⟩ := ihb (List.tail_eq_of_cons_eq h)
      obtain ⟨rfl, hback⟩ := ihr hrest
      exact ⟨rfl, hback⟩

/-- A program is read as a tree in one way only. -/
theorem instructions_injective : Function.Injective instructions := by
  intro a b h
  have hclosed : a.instructions ++ .op .endIf :: [] = b.instructions ++ .op .endIf :: [] := by
    rw [h]
  exact (instructions_append_inj hclosed).1

end Nested

namespace Machine

variable (pk : PublicKey)

/-! ## Runs -/

/-- The machine runs the instructions of a tree as the tree is run. -/
theorem run_instructions (code : Nested) (s : State) :
    run pk code.instructions [] s = code.run pk s := by
  induction code generalizing s with
  | nil => rfl
  | plain i hi rest ih =>
    rw [Nested.instructions, Nested.run, run_plain pk hi, if_pos (by rfl)]
    exact bind_congr ih
  | block body rest ihb ihr =>
    obtain ⟨main, alt⟩ := s
    rw [Nested.instructions, Nested.run]
    cases main with
    | nil => rfl
    | cons condition main =>
      rw [List.cons_append, run_block pk body.balanced_instructions, ihb]
      dsimp only
      split_ifs
      · exact bind_congr ihr
      · exact ihr ⟨main, alt⟩

/-- A closing of a block that is not open is where the run ends. -/
theorem run_unopened {front : List Instruction} (hfront : Balanced front) (back : List Instruction)
    (s : State) :
    run pk (front ++ .op .endIf :: back) [] s =
      run pk front [] s >>= fun _ => .error .unbalancedConditional := by
  rw [run_append pk hfront]
  rfl

/-- Closings of the blocks that are open do nothing more. -/
theorem run_closings (blocks : List Bool) (s : State) :
    run pk (List.replicate blocks.length (.op .endIf)) blocks s = .ok s := by
  induction blocks with
  | nil => rfl
  | cons b blocks ih => exact ih

/-- A program that ends inside a block is run as if the missing closings stood at its end, and then
fails. -/
theorem run_unclosed {p : List Instruction} {blocks : List Bool} {missing : Nat}
    (hmissing : 0 < missing)
    (hcount : p.count (.op .opIf) + blocks.length = p.count (.op .endIf) + missing) (s : State) :
    run pk p blocks s =
      run pk (p ++ List.replicate missing (.op .endIf)) blocks s >>=
        fun _ => .error .unbalancedConditional := by
  -- At each point the closings still missing are those of the open blocks and of the later ones.
  induction p generalizing blocks s with
  | nil =>
    obtain rfl : blocks.length = missing := by simpa using hcount
    rw [List.nil_append, run_closings, ok_bind, run, if_neg]
    rw [List.isEmpty_iff]
    exact List.length_pos_iff.mp hmissing
  | cons i p ih =>
    rw [List.cons_append]
    rcases eq_or_ne i (.op .opIf) with rfl | hif
    · have hrest : ∀ b : Bool, p.count (.op .opIf) + (b :: blocks).length =
          p.count (.op .endIf) + missing := by
        intro b
        rw [List.count_cons_self, List.count_cons_of_ne (by decide)] at hcount
        rw [List.length_cons]
        omega
      rw [run.eq_2, run.eq_2]
      split_ifs
      · cases s.main with
        | nil => rfl
        | cons condition main => exact ih (hrest _) _
      · exact ih (hrest _) s
    rcases eq_or_ne i (.op .endIf) with rfl | hend
    · cases blocks with
      | nil => rfl
      | cons b blocks =>
        rw [List.count_cons_self, List.count_cons_of_ne (by decide), List.length_cons] at hcount
        exact ih (by omega) s
    · rw [List.count_cons_of_ne hif, List.count_cons_of_ne hend] at hcount
      rw [run_plain pk ⟨hif, hend⟩, run_plain pk ⟨hif, hend⟩]
      split_ifs
      · rw [bind_assoc]
        exact bind_congr fun t => ih hcount t
      · exact ih hcount s

/-- A run of a tree fails as instructions do, and never for its blocks. -/
theorem ofInstruction_nested_run (code : Nested) (s : State) : OfInstruction (code.run pk s) := by
  induction code generalizing s with
  | nil => trivial
  | plain i hi rest ih => exact (ofInstruction_perform pk i s).bind fun t _ => ih t
  | block body rest ihb ihr =>
    rw [Nested.run]
    cases s.main with
    | nil => trivial
    | cons condition main =>
      dsimp only
      split_ifs
      · exact (ihb _).bind fun t _ => ihr t
      · exact ihr _

/-- A program that is not balanced is run as a tree up to the point where its blocks turn out not to
be, and then fails. -/
theorem exists_nested_of_not_balanced {p : List Instruction} (hp : ¬ Balanced p) :
    ∃ code : Nested,
      ((∃ back, p = code.instructions ++ .op .endIf :: back) ∨
        ∃ missing > 0, code.instructions = p ++ List.replicate missing (.op .endIf)) ∧
      ∀ s, run pk p [] s = code.run pk s >>= fun _ => .error .unbalancedConditional := by
  rcases exists_balanced p with ⟨front, back, hfront, rfl⟩ | ⟨missing, hclosed⟩
  · obtain ⟨code, rfl⟩ := Nested.exists_instructions_eq hfront
    refine ⟨code, .inl ⟨back, rfl⟩, fun s => ?_⟩
    rw [run_unopened pk hfront, run_instructions]
  · have hmissing : 0 < missing := by
      rw [Nat.pos_iff_ne_zero]
      rintro rfl
      rw [List.replicate_zero, List.append_nil] at hclosed
      exact hp hclosed
    have hcount := hclosed.count_eq
    rw [List.count_append, List.count_append, List.count_replicate_self, List.count_replicate,
      if_neg (by decide)] at hcount
    obtain ⟨code, hcode⟩ := Nested.exists_instructions_eq hclosed
    refine ⟨code, .inr ⟨missing, hmissing, hcode⟩, fun s => ?_⟩
    rw [run_unclosed pk hmissing hcount, ← hcode, run_instructions]

/-- A program whose blocks are balanced is the row of instructions of exactly one tree, and executing
it runs that tree. A program whose blocks are not balanced is never executed with a result. It has a
tree that ends in front of a closing of a block that is not open, or that is completed by the missing
closings. Executing the program runs this tree: if an instruction in it fails, the error is the one
of that instruction, and otherwise that the blocks are not balanced. -/
theorem execute_eq_nested_run (program : Program) (publicKey : PublicKey) (witness : List Bytes) :
    (Balanced program.instructions →
      ∃ code : Nested,
        (∀ other : Nested, other.instructions = program.instructions ↔ other = code) ∧
        execute program publicKey witness = code.run publicKey (start witness) >>= result) ∧
    (¬ Balanced program.instructions →
      (∀ out, execute program publicKey witness ≠ .ok out) ∧
      ∃ code : Nested,
        ((∃ back, program.instructions = code.instructions ++ .op .endIf :: back) ∨
          ∃ missing > 0,
            code.instructions = program.instructions ++ List.replicate missing (.op .endIf)) ∧
        OfInstruction (code.run publicKey (start witness)) ∧
        execute program publicKey witness =
          match code.run publicKey (start witness) with
          | .error e => .error e
          | .ok _ => .error .unbalancedConditional) := by
  refine ⟨fun hbalanced => ?_, fun hnot => ?_⟩
  · obtain ⟨code, hcode⟩ := Nested.exists_instructions_eq hbalanced
    refine ⟨code, fun other => ⟨fun h => ?_, fun h => h ▸ hcode⟩, ?_⟩
    · exact Nested.instructions_injective (h.trans hcode.symm)
    · rw [execute, ← hcode, run_instructions]
  · obtain ⟨code, hshape, hrun⟩ := exists_nested_of_not_balanced publicKey hnot
    have hexecute : execute program publicKey witness =
        match code.run publicKey (start witness) with
        | .error e => .error e
        | .ok _ => .error .unbalancedConditional := by
      rw [execute, hrun, bind_assoc]
      cases code.run publicKey (start witness) <;> rfl
    refine ⟨fun out hout => ?_, code, hshape, ofInstruction_nested_run publicKey code _, hexecute⟩
    rw [hexecute] at hout
    split at hout <;> nomatch hout

/-- A block inside a block that is not taken pops nothing, and what it holds cannot fail. -/
theorem execute_eq_nested_run_skipped :
    ∃ code : Nested,
      code.instructions = [.pushNumber 1, .pushNumber 0, .op .opIf, .op .opIf, .op .drop, .op .drop,
        .op .endIf, .op .fromAltStack, .op .endIf] ∧
      execute (code.instructions.map .code) (FixedBytes.ofNat 32 0) [] =
        code.run (FixedBytes.ofNat 32 0) (start []) >>= result ∧
      execute (code.instructions.map .code) (FixedBytes.ofNat 32 0) [] = .ok [1] ∧
      ∀ out, execute [.code (.pushNumber 0), .code (.op .opIf)] (FixedBytes.ofNat 32 0) [] ≠
        .ok out := by
  obtain ⟨code, hcode, hrun⟩ := (execute_eq_nested_run
    ([.pushNumber 1, .pushNumber 0, .op .opIf, .op .opIf, .op .drop, .op .drop, .op .endIf,
      .op .fromAltStack, .op .endIf].map .code) (FixedBytes.ofNat 32 0) []).1 (by decide)
  have hinstructions := (hcode code).mpr rfl
  have hunclosed := (execute_eq_nested_run [.code (.pushNumber 0), .code (.op .opIf)]
    (FixedBytes.ofNat 32 0) []).2 (by decide)
  refine ⟨code, hinstructions, ?_, ?_, hunclosed.1⟩
  · rw [hinstructions]
    exact hrun
  · rw [hinstructions]
    decide +kernel

end Machine

end OneTimeSig.Script
