import OneTimeSig.DigitProof
import OneTimeSig.Proofs.Params
import OneTimeSig.Proofs.Script.Digit
import OneTimeSig.Proofs.Script.Frame

/-!
# What the verifier program accepts

The digits are run from the last to the first, and each takes its items from the top of the stack,
so an induction over the digits gives the run on a witness that has items for all of them
(`run_digitsCode`, `run_program`, `execute_program_append`): the error of the last digit whose control
item is no number, else the comparison of the recovered key, with surplus items left where they were.
A shorter witness is run once more with as many items below it as are missing. That run uses all of
them up, so the shorter one lacks an item somewhere, unless both fail at an operand before
(`execute_program_of_lt`). Together this is `execute_program_eq_ok_iff`, and
`execute_compile_eq_ok_iff` spells it out for the compiled program.
-/

namespace OneTimeSig.Script

open Machine

namespace Verifier

variable (pk : PublicKey)

/-- One more digit. -/
theorem digitsCode_succ (depth n : Nat) :
    digitsCode depth (n + 2) = digitsCode depth (n + 1) ++ nextCode depth := by
  rw [digitsCode, digitsCode, List.replicate_succ', List.flatten_append, List.flatten_singleton,
    List.append_assoc]

/-- The run of all digits, which leaves the roots and the digest on the alt stack. -/
theorem run_digitsCode {depth : Nat} (hpos : 0 < depth) (hd : depth ≤ 8) {ps : List RawProof}
    (hne : ps ≠ []) (hps : ∀ p ∈ ps, p.siblings.length = depth) (main : List Bytes) :
    run pk (digitsCode depth ps.length) [] ⟨(ps.flatMap RawProof.items).reverse ++ main, []⟩ =
      RawProof.recoverRoots ps >>= fun roots =>
        .ok ⟨main, [roots.flatMap FixedBytes.toList, RawProof.digest ps]⟩ := by
  -- The digits behind the head are processed first, while the items of the head lie below theirs.
  induction ps generalizing main with
  | nil => exact absurd rfl hne
  | cons p ps ih =>
    rw [List.forall_mem_cons] at hps
    obtain ⟨hp, hps⟩ := hps
    rw [List.flatMap_cons, List.reverse_append, List.append_assoc, RawProof.recoverRoots,
      bind_assoc]
    cases ps with
    | nil =>
      -- The only digit is the first to be processed.
      have hcode : digitsCode depth [p].length = firstCode depth := List.append_nil _
      rw [hcode, List.flatMap_nil, List.reverse_nil, List.nil_append,
        run_firstCode pk hpos hd p hp, RawProof.recoverRoots, ok_bind, bind_assoc]
      apply bind_congr
      intro root
      rw [pure_bind]
      simp [RawProof.digest]
    | cons q ps =>
      rw [List.length_cons, List.length_cons, digitsCode_succ,
        run_append pk (balanced_digitsCode depth _)]
      have hrest := ih (List.cons_ne_nil q ps) hps (p.items.reverse ++ main)
      rw [List.length_cons] at hrest
      rw [hrest, bind_assoc]
      apply bind_congr
      intro roots
      rw [ok_bind, run_nextCode pk hpos hd p hp, bind_assoc]
      rfl

/-- The end of the program compares the hash of the roots and brings the digest back. -/
theorem run_finalCode (roots digest : Bytes) (main : List Bytes) :
    run pk finalCode [] ⟨main, [roots, digest]⟩ =
      if hash256 roots = pk then .ok ⟨digest :: main, []⟩ else .error .equalVerifyFailed := by
  have hpush : run pk (opCode [.fromAltStack, .hash256] ++ [.pushPublicKey]) []
      ⟨main, [roots, digest]⟩ = .ok ⟨pk.toList :: (hash256 roots).toList :: main, [digest]⟩ := rfl
  have hcode : finalCode = (opCode [.fromAltStack, .hash256] ++ [.pushPublicKey]) ++
      opCode [.equalVerify, .fromAltStack] := rfl
  rw [hcode, run_append pk (balanced_of_plain (by decide)), hpush, ok_bind]
  rcases eq_or_ne (hash256 roots) pk with h | h
  · rw [if_pos h, h]
    simp [opCode, run, perform, step]
  · have hbytes : (hash256 roots).toList ≠ pk.toList := fun heq => h (FixedBytes.ext heq)
    rw [if_neg h]
    simp [opCode, run, perform, step, hbytes]

/-- The run of the program on a witness that ends with items for all digits. -/
theorem run_program {depth : Nat} (hpos : 0 < depth) (hd : depth ≤ 8) {ps : List RawProof}
    (hne : ps ≠ []) (hps : ∀ p ∈ ps, p.siblings.length = depth) (below : List Bytes) :
    run pk (program ps.length depth).instructions [] (start (below ++ ps.flatMap RawProof.items)) =
      RawProof.recoverRoots ps >>= fun roots =>
        if aggregate roots = pk then .ok ⟨RawProof.digest ps :: below.reverse, []⟩
        else .error .equalVerifyFailed := by
  rw [instructions_program, start, List.reverse_append,
    run_append pk (balanced_digitsCode depth _), run_digitsCode pk hpos hd hne hps, bind_assoc]
  apply bind_congr
  intro roots
  rw [ok_bind, run_finalCode]
  rfl

/-- How the program ends on a witness that ends with items for all digits. -/
theorem execute_program_append {depth : Nat} (hpos : 0 < depth) (hd : depth ≤ 8)
    {ps : List RawProof} (hne : ps ≠ []) (hps : ∀ p ∈ ps, p.siblings.length = depth)
    (below : List Bytes) :
    execute (program ps.length depth) pk (below ++ ps.flatMap RawProof.items) =
      RawProof.recoverRoots ps >>= fun roots =>
        if aggregate roots = pk then
          if below = [] then .ok (RawProof.digest ps)
          else .error (.uncleanStack (below.length + 1) 0)
        else .error .equalVerifyFailed := by
  unfold execute
  rw [run_program pk hpos hd hne hps, bind_assoc]
  apply bind_congr
  intro roots
  split_ifs with hkey hbelow
  · rw [hbelow]
    rfl
  · -- The items below those of the digits are left below the digest.
    obtain ⟨item, rest, hrest⟩ := List.exists_cons_of_ne_nil (mt List.reverse_eq_nil_iff.mp hbelow)
    have hlen := congrArg List.length hrest
    rw [List.length_reverse, List.length_cons] at hlen
    rw [hrest, hlen]
    rfl
  · rfl

/-- On a witness with too few items the program fails: it asks for an item that is not there, or
refuses an operand before. -/
theorem execute_program_of_lt {depth digits : Nat} (hpos : 0 < depth) (hd : depth ≤ 8)
    (hdigits : 0 < digits) {witness : List Bytes} (hlt : witness.length < digits * (depth + 2)) :
    ∃ e, execute (program digits depth) pk witness = .error e ∧
      ((∃ op, e = .stackUnderflow op) ∨ e.RefusesOperand) := by
  -- The digits are run once more with as many items below the witness as are missing.
  generalize hmissing : List.replicate (digits * (depth + 2) - witness.length) [] = missing
  have hfull : (missing ++ witness).length = digits * (depth + 2) := by
    rw [← hmissing, List.length_append, List.length_replicate]
    omega
  have hstart : (start witness).above missing = start (missing ++ witness) := by
    rw [start_append, ← hmissing, List.reverse_replicate]
  obtain ⟨hitems, hsiblings⟩ := RawProof.flatMap_items_read hfull
  have hne : RawProof.read depth digits (missing ++ witness) ≠ [] := by
    rw [← List.length_pos_iff, RawProof.length_read]
    exact hdigits
  have hdigitsRun := run_digitsCode pk hpos hd hne hsiblings []
  rw [RawProof.length_read, hitems, List.append_nil, ← start] at hdigitsRun
  have hframe : Framed missing _ _ := framed_run pk (digitsCode depth digits) [] (start witness)
  rw [hstart, hdigitsRun] at hframe
  unfold execute
  rw [instructions_program, run_append pk (balanced_digitsCode depth digits)]
  cases hrun : run pk (digitsCode depth digits) [] (start witness) with
  | ok t =>
    -- The longer run uses up all items, so there are none that the shorter could do without.
    rw [hrun] at hframe
    obtain ⟨roots, -, hstate⟩ := bind_eq_ok_iff.mp hframe
    have hmain := congrArg List.length (congrArg State.main (Except.ok.inj hstate))
    rw [State.above, List.length_append, ← hmissing, List.length_replicate, List.length_nil] at hmain
    omega
  | error e =>
    rw [hrun] at hframe
    refine ⟨e, rfl, ?_⟩
    -- Every other error than an underflow is one of the longer run.
    cases e with
    | stackUnderflow op => exact .inl ⟨op, rfl⟩
    | _ =>
      right
      unfold Framed at hframe
      cases hroots : RawProof.recoverRoots (RawProof.read depth digits (missing ++ witness)) with
      | ok roots =>
        rw [hroots] at hframe
        cases hframe
      | error e' =>
        rw [hroots, error_bind] at hframe
        obtain ⟨-, p, -, -, hcontrol, -⟩ := RawProof.exists_of_recoverRoots_eq_error hroots
        rw [← Except.error.inj hframe]
        exact hcontrol.refusesOperand

/-- The program succeeds on exactly the witnesses that have the items of all digits and lead to the
public key. -/
theorem execute_program_eq_ok_iff {depth digits : Nat} (hpos : 0 < depth) (hd : depth ≤ 8)
    (hdigits : 0 < digits) (witness : List Bytes) (out : Bytes) :
    execute (program digits depth) pk witness = .ok out ↔
      witness.length = digits * (depth + 2) ∧
        ∃ roots, RawProof.recoverRoots (RawProof.read depth digits witness) = .ok roots ∧
          aggregate roots = pk ∧ out = RawProof.digest (RawProof.read depth digits witness) := by
  rcases Nat.lt_or_ge witness.length (digits * (depth + 2)) with hlt | hge
  · obtain ⟨e, he, -⟩ := execute_program_of_lt pk hpos hd hdigits hlt
    rw [he]
    constructor
    · intro h
      nomatch h
    · rintro ⟨hlen, -⟩
      omega
  obtain ⟨below, ps, rfl, rfl, hps⟩ := RawProof.exists_items_of_le hge
  have hne : ps ≠ [] := List.length_pos_iff.mp hdigits
  rw [execute_program_append pk hpos hd hne hps, bind_eq_ok_iff, List.length_append,
    RawProof.length_flatMap_items hps]
  constructor
  · rintro ⟨roots, hroots, h⟩
    split_ifs at h with hkey hnil
    rw [hnil, List.nil_append, RawProof.read_flatMap_items hps]
    exact ⟨Nat.zero_add _, roots, hroots, hkey, (Except.ok.inj h).symm⟩
  · rintro ⟨hexact, roots, hroots, hkey, rfl⟩
    -- With exactly the items of the digits there are none below them.
    obtain rfl : below = [] := List.length_eq_zero_iff.mp (by omega)
    rw [List.nil_append, RawProof.read_flatMap_items hps] at hroots ⊢
    exact ⟨roots, hroots, by rw [if_pos hkey, if_pos rfl]⟩

/-- The parameters of a scheme compile to the program for its digits and its depth. -/
theorem compile_params (s : Scheme) : compile s.params = .ok (program s.digits s.depth) := by
  have hdepth : ¬ maxDepth < s.depth := not_lt.mpr s.depth_le
  unfold compile
  rw [s.ofParams_params, ok_bind, if_neg hdepth]
  rfl

/-- The compiled program succeeds on a witness when it has the right number of items, every control
item stands for a number, and the roots that the items lead to hash to the public key. It returns
the control items in the order of the digits. -/
theorem execute_compile_eq_ok_iff (s : Scheme) :
    ∃ program, compile s.params = .ok program ∧
      ∀ (pk : PublicKey) (witness : List Bytes) (out : Bytes),
        execute program pk witness = .ok out ↔
          witness.length = s.digits * (s.depth + 2) ∧
            ∃ values,
              List.Forall₂ (fun p v => IsControlValue p.control v)
                (RawProof.read s.depth s.digits witness) values ∧
              aggregate (List.zipWith RawProof.root (RawProof.read s.depth s.digits witness) values)
                = pk ∧
              out = (RawProof.read s.depth s.digits witness).flatMap RawProof.control := by
  refine ⟨program s.digits s.depth, compile_params s, fun pk witness out => ?_⟩
  rw [execute_program_eq_ok_iff pk s.depth_pos s.depth_le s.digits_pos]
  refine and_congr_right fun _ => ?_
  constructor
  · rintro ⟨roots, hroots, hkey, hout⟩
    obtain ⟨values, hvalues, rfl⟩ := (RawProof.recoverRoots_eq_ok_iff _ _).mp hroots
    exact ⟨values, hvalues, hkey, hout⟩
  · rintro ⟨values, hvalues, hkey, hout⟩
    exact ⟨_, (RawProof.recoverRoots_eq_ok_iff _ _).mpr ⟨values, hvalues, rfl⟩, hkey, hout⟩

end Verifier

end OneTimeSig.Script
