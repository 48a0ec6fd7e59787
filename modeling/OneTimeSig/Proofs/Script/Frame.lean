import OneTimeSig.Proofs.Script.Failure

/-!
# Items below the stack do not matter

A run on a stack that has more items at its bottom goes the same way as without them, as long as the
run without them does not ask for an item that is not there. `Framed` says this of two outcomes: a
state is reached with the items still below it, and an error other than an underflow of the main
stack is the same error. One instruction is framed (`framed_perform`), and therefore a run is
(`framed_run`). How a program ends follows from it: more items in front of a witness are counted
among those that are left over, and change nothing else (`execute_below`).
-/

namespace OneTimeSig.Script

/-- The state with more items below its main stack. -/
def State.above (s : State) (below : List Bytes) : State :=
  ⟨s.main ++ below, s.alt⟩

namespace Machine

/-- The outcome `y` is the outcome `x` with more items below the main stack. Nothing is said where
`x` asks for an item that is not there. -/
def Framed (below : List Bytes) : (x y : Except Error State) → Prop
  | .ok t, y => y = .ok (t.above below)
  | .error (.stackUnderflow _), _ => True
  | .error e, y => y = .error e

variable {below : List Bytes}

/-- The same error on both sides. -/
theorem Framed.error (e : Error) : Framed below (.error e) (.error e) := by
  cases e <;> simp [Framed]

/-- Steps that are framed one after the other are framed together. -/
theorem Framed.bind {x y : Except Error State} {f g : State → Except Error State}
    (hxy : Framed below x y) (hfg : ∀ t, Framed below (f t) (g (t.above below))) :
    Framed below (x >>= f) (y >>= g) := by
  cases x with
  | ok t =>
    unfold Framed at hxy
    rw [hxy, ok_bind, ok_bind]
    exact hfg t
  | error e =>
    rw [error_bind]
    -- After an underflow nothing is asked for, and any other error ends both runs.
    cases e with
    | stackUnderflow op => trivial
    | _ =>
      unfold Framed at hxy
      rw [hxy]
      exact Framed.error _

/-- Two numbers taken off the stack are the same two numbers, and what is done with them is
framed. -/
theorem framed_popNumbers (op : Opcode) (main : List Bytes)
    (f : Int → Int → List Bytes → Except Error State)
    (hf : ∀ a b rest, Framed below (f a b rest) (f a b (rest ++ below))) :
    Framed below (popNumbers op main >>= fun p => f p.1 p.2.1 p.2.2)
      (popNumbers op (main ++ below) >>= fun p => f p.1 p.2.1 p.2.2) := by
  match main with
  | [] => simp [popNumbers, popNumber, Framed]
  | [b] =>
    cases hb : Number.decode b with
    | error e =>
      simp only [popNumbers, popNumber, hb, List.singleton_append, error_bind]
      exact Framed.error e
    | ok n =>
      simp only [popNumbers, popNumber, hb, ok_bind, pure_bind, error_bind]
      trivial
  | b :: a :: rest =>
    cases hb : Number.decode b with
    | error e =>
      simp only [popNumbers, popNumber, hb, List.cons_append, error_bind]
      exact Framed.error e
    | ok n =>
      cases ha : Number.decode a with
      | error e =>
        simp only [popNumbers, popNumber, hb, ha, List.cons_append, ok_bind, pure_bind, error_bind]
        exact Framed.error e
      | ok m =>
        simp only [popNumbers, popNumber, hb, ha, List.cons_append, ok_bind, pure_bind]
        exact hf m n rest

/-- One opcode. -/
theorem framed_step (op : Opcode) (s : State) :
    Framed below (step op s) (step op (s.above below)) := by
  obtain ⟨main, alt⟩ := s
  cases op with
  -- These need no more than the top item.
  | dup | drop | toAltStack | hash160 | hash256 =>
    cases main with
    | nil => trivial
    | cons a main => rfl
  -- These need the two upper items.
  | swap | cat | equal =>
    match main with
    | [] => trivial
    | [b] => trivial
    | b :: a :: main => rfl
  | equalVerify =>
    match main with
    | [] => trivial
    | [b] => trivial
    | b :: a :: main =>
      simp only [step, State.above, List.cons_append]
      split_ifs with h
      · rfl
      · exact Framed.error _
  -- The alt stack is the same on both sides, and so is its underflow.
  | fromAltStack =>
    cases alt with
    | nil => exact Framed.error _
    | cons a alt => rfl
  -- Two numbers are read, and their difference may be too large on both sides alike.
  | sub =>
    refine framed_popNumbers .sub main
      (fun a b rest => Number.subtract a b >>= fun d => .ok ⟨Number.encode d :: rest, alt⟩) ?_
    intro a b rest
    cases Number.subtract a b with
    | error e => exact Framed.error e
    | ok d => rfl
  | lessThan =>
    exact framed_popNumbers .lessThan main
      (fun a b rest => .ok ⟨Number.ofBool (a < b) :: rest, alt⟩) fun _ _ _ => rfl
  | greaterThanOrEqual =>
    exact framed_popNumbers .greaterThanOrEqual main
      (fun a b rest => .ok ⟨Number.ofBool (b ≤ a) :: rest, alt⟩) fun _ _ _ => rfl
  | opIf | endIf => rfl

variable (pk : PublicKey)

/-- One instruction. -/
theorem framed_perform (i : Instruction) (s : State) :
    Framed below (perform pk i s) (perform pk i (s.above below)) := by
  cases i with
  | op code => exact framed_step code s
  | pushNumber n => rfl
  | pushBytes bytes => rfl
  | pushPublicKey => rfl

/-- A run. -/
theorem framed_run (p : List Instruction) (blocks : List Bool) (s : State) :
    Framed below (run pk p blocks s) (run pk p blocks (s.above below)) := by
  induction p generalizing blocks s with
  | nil =>
    unfold run
    split_ifs
    · rfl
    · exact Framed.error _
  | cons i p ih =>
    -- A block that is opened takes its condition off the stack only where instructions take effect.
    rcases eq_or_ne i (.op .opIf) with rfl | hif
    · rw [run.eq_2, run.eq_2]
      split_ifs
      · obtain ⟨main, alt⟩ := s
        cases main with
        | nil => trivial
        | cons c main => exact ih _ ⟨main, alt⟩
      · exact ih _ s
    rcases eq_or_ne i (.op .endIf) with rfl | hend
    · cases blocks with
      | nil => exact Framed.error _
      | cons b blocks => exact ih blocks s
    rw [run_plain pk ⟨hif, hend⟩, run_plain pk ⟨hif, hend⟩]
    split_ifs
    · exact (framed_perform pk i s).bind fun t => ih blocks t
    · exact ih blocks s

/-! ## Endings -/

/-- Items in front of a witness lie below it. -/
theorem start_append (below witness : List Bytes) :
    start (below ++ witness) = (start witness).above below.reverse := by
  rw [start, start, State.above, List.reverse_append]

/-- A state gives the item that is all there is. -/
theorem result_eq_ok_iff {s : State} {out : Bytes} : result s = .ok out ↔ s = ⟨[out], []⟩ := by
  unfold result
  split
  next out' => simp
  next hother =>
    constructor
    · intro h
      nomatch h
    · intro h
      exact absurd h (hother out)

/-- Anything else than one item is counted. -/
theorem result_eq_error_iff {s : State} {e : Error} :
    result s = .error e ↔
      ¬ (s.main.length = 1 ∧ s.alt = []) ∧ e = .uncleanStack s.main.length s.alt.length := by
  unfold result
  split
  next out => simp
  next hother =>
    have hunclean : ¬ (s.main.length = 1 ∧ s.alt = []) := by
      rintro ⟨hmain, halt⟩
      obtain ⟨out, hout⟩ := List.length_eq_one_iff.mp hmain
      exact hother out (by cases s; simp_all)
    rw [and_iff_right hunclean, Except.error.injEq, eq_comm]

variable {pk}

/-- A run that fails with anything but an underflow fails in the same way with more items below. -/
theorem run_above_of_eq_error {p : List Instruction} {blocks : List Bool} {s : State} {e : Error}
    (h : run pk p blocks s = .error e) (he : ∀ op, e ≠ .stackUnderflow op) (below : List Bytes) :
    run pk p blocks (s.above below) = .error e := by
  have hframe : Framed below _ _ := framed_run pk p blocks s
  rw [h] at hframe
  cases e with
  | stackUnderflow op => exact absurd rfl (he op)
  | _ => exact hframe

/-- A run that reaches its end does so with more items below. -/
theorem run_above_of_eq_ok {p : List Instruction} {blocks : List Bool} {s t : State}
    (h : run pk p blocks s = .ok t) (below : List Bytes) :
    run pk p blocks (s.above below) = .ok (t.above below) := by
  have hframe : Framed below _ _ := framed_run pk p blocks s
  rw [h] at hframe
  exact hframe

/-- Where a run reaches its end, the items that are put in front of the witness lie below what it
leaves. -/
theorem execute_append_of_eq_ok {program : Program} {witness : List Bytes} {t : State}
    (h : run pk program.instructions [] (start witness) = .ok t) (below : List Bytes) :
    execute program pk (below ++ witness) = result (t.above below.reverse) := by
  rw [execute, start_append, run_above_of_eq_ok h, ok_bind]

/-- A program finds its stacks unclean at the end of its run and nowhere else. -/
theorem execute_eq_uncleanStack_iff {program : Program} {witness : List Bytes} {main alt : Nat} :
    execute program pk witness = .error (.uncleanStack main alt) ↔
      ∃ t, run pk program.instructions [] (start witness) = .ok t ∧
        ¬ (t.main.length = 1 ∧ t.alt = []) ∧ main = t.main.length ∧ alt = t.alt.length := by
  rw [execute, bind_eq_error_iff]
  simp only [result_eq_error_iff, Error.uncleanStack.injEq]
  constructor
  · rintro (hrun | hend)
    · have hcases := run_cases pk program.instructions [] (start witness)
      rw [hrun] at hcases
      rcases hcases with hof | heq
      · exact hof.elim
      · nomatch heq
    · exact hend
  · exact .inr

/-- What more items in front of a witness change. A run that fails while instructions are left or
for its blocks, but not for want of an item, fails with the same error. A run that reaches its end
does so with the same alt stack and with the items below its main stack. So a program that returned
an item finds the further ones left over, and one that found its stacks unclean counts them too,
unless now there is one item in all, which it returns. -/
theorem execute_below (program : Program) (pk : PublicKey) (below witness : List Bytes) :
    (∀ e, run pk program.instructions [] (start witness) = .error e →
      (∀ op, e ≠ .stackUnderflow op) →
        run pk program.instructions [] (start (below ++ witness)) = .error e ∧
          execute program pk witness = .error e ∧
          execute program pk (below ++ witness) = .error e) ∧
    (∀ main alt, run pk program.instructions [] (start witness) = .ok ⟨main.reverse, alt⟩ →
      run pk program.instructions [] (start (below ++ witness)) =
        .ok ⟨(below ++ main).reverse, alt⟩) ∧
    (∀ out, execute program pk witness = .ok out → below ≠ [] →
      execute program pk (below ++ witness) = .error (.uncleanStack (below.length + 1) 0)) ∧
    ∀ main alt, execute program pk witness = .error (.uncleanStack main alt) →
      (main + below.length = 1 ∧ alt = 0 →
        ∃ item, below = [item] ∧ execute program pk (below ++ witness) = .ok item) ∧
      (¬ (main + below.length = 1 ∧ alt = 0) →
        execute program pk (below ++ witness) =
          .error (.uncleanStack (main + below.length) alt)) := by
  refine ⟨fun e he hunder => ?_, fun main alt hrun => ?_, fun out hout hbelow => ?_,
    fun main alt hunclean => ?_⟩
  · have hlonger := run_above_of_eq_error he hunder below.reverse
    rw [← start_append] at hlonger
    refine ⟨hlonger, ?_, ?_⟩
    · rw [execute, he, error_bind]
    · rw [execute, hlonger, error_bind]
  · rw [start_append, run_above_of_eq_ok hrun, State.above, List.reverse_append]
  · obtain ⟨t, hrun, hresult⟩ := bind_eq_ok_iff.mp hout
    obtain rfl := result_eq_ok_iff.mp hresult
    have hpos := List.length_pos_iff.mpr hbelow
    rw [execute_append_of_eq_ok hrun, result_eq_error_iff]
    simp only [State.above, List.singleton_append, List.length_cons, List.length_reverse,
      List.length_nil, and_true]
    omega
  · obtain ⟨t, hrun, hcount, rfl, rfl⟩ := execute_eq_uncleanStack_iff.mp hunclean
    rw [execute_append_of_eq_ok hrun, result_eq_error_iff, List.length_eq_zero_iff]
    constructor
    · rintro ⟨hone, halt⟩
      -- The one item cannot be on the stack of the shorter run, which was not clean.
      have hmain : t.main = [] := by
        rw [← List.length_eq_zero_iff]
        have : t.main.length ≠ 1 := fun hlen => hcount ⟨hlen, halt⟩
        omega
      rw [hmain, List.length_nil, Nat.zero_add] at hone
      obtain ⟨item, rfl⟩ := List.length_eq_one_iff.mp hone
      exact ⟨item, rfl, result_eq_ok_iff.mpr (by rw [State.above, hmain, halt]; rfl)⟩
    · intro hmore
      simp only [State.above, List.length_append, List.length_reverse]
      exact ⟨hmore, trivial⟩

/-- The program that drops an item when the one above it is true. -/
def dropIf : Program :=
  [.code (.op .opIf), .code (.op .drop), .code (.op .endIf)]

/-- Items below those that are dropped stay as they are: one is returned, more make the stack
unclean, and a block that was never opened fails as before. -/
theorem execute_below_dropIf :
    execute dropIf (FixedBytes.ofNat 32 0) ([[7]] ++ [[5], [1]]) = .ok [7] ∧
      run (FixedBytes.ofNat 32 0) dropIf.instructions [] (start ([[6], [7]] ++ [[5], [1]])) =
        .ok ⟨[[7], [6]], []⟩ ∧
      execute dropIf (FixedBytes.ofNat 32 0) ([[6], [7]] ++ [[5], [1]]) =
        .error (.uncleanStack 2 0) ∧
      execute dropIf (FixedBytes.ofNat 32 0) ([[6], [7]] ++ [[5], []]) =
        .error (.uncleanStack 3 0) ∧
      execute (dropIf ++ [.code (.op .endIf)]) (FixedBytes.ofNat 32 0) ([[7]] ++ [[5], [1]]) =
        .error .unbalancedConditional := by
  obtain ⟨-, -, hreturned, -⟩ := execute_below dropIf (FixedBytes.ofNat 32 0) [[6], [7]] [[5], []]
  obtain ⟨-, -, -, hone⟩ := execute_below dropIf (FixedBytes.ofNat 32 0) [[7]] [[5], [1]]
  obtain ⟨-, hended, -, htwo⟩ :=
    execute_below dropIf (FixedBytes.ofNat 32 0) [[6], [7]] [[5], [1]]
  obtain ⟨hfailed, -⟩ := execute_below (dropIf ++ [.code (.op .endIf)]) (FixedBytes.ofNat 32 0)
    [[7]] [[5], [1]]
  obtain ⟨item, hitem, hitemReturned⟩ := (hone 0 0 rfl).1 ⟨rfl, rfl⟩
  obtain rfl := (List.singleton_inj.mp hitem)
  exact ⟨hitemReturned, hended [] [] rfl, (htwo 0 0 rfl).2 (by decide),
    hreturned [5] rfl (by decide), (hfailed .unbalancedConditional rfl (fun op h => nomatch h)).2.2⟩

end Machine

end OneTimeSig.Script
