import OneTimeSig.Proofs.Agreement

/-!
# How a run of the verifier program can end

The digits take their items from the top of the witness, and what one of them asks for depends on its
number of siblings only. So a witness that is too short ends with an item that is not there, unless an
operand is refused before; and in a longer one the items below those of the digits are never looked
at, and only counted at the end. Of a witness that is long enough the control items are read first,
each before the levels of its digit, from the last digit to the first. The run ends with the error of
the first of them that stands for no number, and then with the comparison of the keys.

No other ending is possible (`execute_program_error`): the alt stack never runs out, the blocks are
balanced, and no difference leaves a machine word. `execute_compile_ending` puts all cases together,
with the cases of a witness that is long enough from `execute_program_append_last`.
-/

namespace OneTimeSig

open Script Script.Machine

namespace Script.Verifier

variable (pk : PublicKey)

/-- The errors that a run of the program can end with. -/
theorem execute_program_error {depth digits : Nat} (hpos : 0 < depth) (hd : depth ≤ 8)
    (hdigits : 0 < digits) {witness : List Bytes} {e : Script.Error}
    (h : execute (program digits depth) pk witness = .error e) :
    (∃ op, e = .stackUnderflow op) ∨ e.RefusesOperand ∨ e = .equalVerifyFailed ∨
      ∃ main, e = .uncleanStack main 0 := by
  rcases Nat.lt_or_ge witness.length (digits * (depth + 2)) with hlt | hge
  · obtain ⟨e', he', hkind⟩ := execute_program_of_lt pk hpos hd hdigits hlt
    rw [he'] at h
    obtain rfl := Except.error.inj h
    exact hkind.imp_right .inl
  · obtain ⟨below, ps, rfl, rfl, hps⟩ := RawProof.exists_items_of_le hge
    have hne : ps ≠ [] := List.length_pos_iff.mp hdigits
    rw [execute_program_append pk hpos hd hne hps] at h
    cases hroots : RawProof.recoverRoots ps with
    | error e' =>
      rw [hroots, error_bind] at h
      obtain ⟨-, p, -, -, hcontrol, -⟩ := RawProof.exists_of_recoverRoots_eq_error hroots
      rw [← Except.error.inj h]
      exact .inr (.inl hcontrol.refusesOperand)
    | ok roots =>
      rw [hroots, ok_bind] at h
      split_ifs at h
      · exact .inr (.inr (.inr ⟨_, (Except.error.inj h).symm⟩))
      · exact .inr (.inr (.inl (Except.error.inj h).symm))

/-- How the program ends on a witness that is long enough: only the last items count, and those below
them are counted when the keys are the same. -/
theorem execute_program_append_last {depth digits : Nat} (hpos : 0 < depth) (hd : depth ≤ 8)
    (hdigits : 0 < digits) {last : List Bytes} (hlen : last.length = digits * (depth + 2))
    (below : List Bytes) :
    execute (program digits depth) pk (below ++ last) =
      RawProof.recoverRoots (RawProof.read depth digits last) >>= fun roots =>
        if aggregate roots = pk then
          if below = [] then .ok (RawProof.digest (RawProof.read depth digits last))
          else .error (.uncleanStack (below.length + 1) 0)
        else .error .equalVerifyFailed := by
  obtain ⟨hitems, hsiblings⟩ := RawProof.flatMap_items_read hlen
  have hne : RawProof.read depth digits last ≠ [] := by
    rw [← List.length_pos_iff, RawProof.length_read]
    exact hdigits
  have hrun := execute_program_append pk hpos hd hne hsiblings below
  rw [RawProof.length_read, hitems] at hrun
  exact hrun

end Script.Verifier

namespace Scheme

/-- The endings of the compiled program. It never fails for want of an item on the alt stack, for an
unbalanced block or for an overflow. With fewer items than the digits have it asks for one that is not
there, or refuses an operand before. Otherwise only the last items count: if some control item among
them stands for no number, the error is that of the last such digit; else the run fails unless the
roots lead to the key, and then returns the control items, or counts the items that are left over. On
the witness of a signature of the shape it therefore returns the digest or fails at the key. -/
theorem execute_compile_ending (s : Scheme) :
    ∃ program, Verifier.compile s.params = .ok program ∧ ∀ pk,
      (∀ witness,
        (∀ op, execute program pk witness ≠ .error (.altStackUnderflow op)) ∧
          execute program pk witness ≠ .error .unbalancedConditional ∧
          execute program pk witness ≠ .error .numericOverflow ∧
          (witness.length < s.digits * (s.depth + 2) →
            ∃ e, execute program pk witness = .error e ∧
              ((∃ op, e = .stackUnderflow op) ∨ e.RefusesOperand))) ∧
      (∀ below last, last.length = s.digits * (s.depth + 2) →
        ((∃ p ∈ RawProof.read s.depth s.digits last, ∃ e, IsControlError p.control e) →
          ∃ front p back e, RawProof.read s.depth s.digits last = front ++ p :: back ∧
            IsControlError p.control e ∧ (∀ q ∈ back, ∀ e', ¬ IsControlError q.control e') ∧
            e.RefusesOperand ∧ execute program pk (below ++ last) = .error e) ∧
        ((∀ p ∈ RawProof.read s.depth s.digits last, ∀ e, ¬ IsControlError p.control e) →
          ∃ values,
            List.Forall₂ (fun p v => IsControlValue p.control v)
              (RawProof.read s.depth s.digits last) values ∧
            execute program pk (below ++ last) =
              if aggregate
                  (List.zipWith RawProof.root (RawProof.read s.depth s.digits last) values) = pk then
                if below = [] then
                  .ok ((RawProof.read s.depth s.digits last).flatMap RawProof.control)
                else .error (.uncleanStack (below.length + 1) 0)
              else .error .equalVerifyFailed)) ∧
      ∀ sig, s.hasShape sig = true →
        execute program pk sig.witness =
          if sig.programKey = pk then .ok sig.digest else .error .equalVerifyFailed := by
  refine ⟨_, Verifier.compile_params s, fun pk => ⟨fun witness => ?_, fun below last hlen => ?_,
    fun sig hshape => execute_witness_eq hshape pk⟩⟩
  · have herror : ∀ e, execute (Verifier.program s.digits s.depth) pk witness = .error e → _ :=
      fun e => Verifier.execute_program_error pk s.depth_pos s.depth_le s.digits_pos
    refine ⟨fun op h => ?_, fun h => ?_, fun h => ?_, fun hlt => ?_⟩
    · simpa [Script.Error.RefusesOperand] using herror _ h
    · simpa [Script.Error.RefusesOperand] using herror _ h
    · simpa [Script.Error.RefusesOperand] using herror _ h
    · exact Verifier.execute_program_of_lt pk s.depth_pos s.depth_le s.digits_pos hlt
  · rw [Verifier.execute_program_append_last pk s.depth_pos s.depth_le s.digits_pos hlen]
    constructor
    · rintro ⟨p, hp, e, he⟩
      cases hroots : RawProof.recoverRoots (RawProof.read s.depth s.digits last) with
      | ok roots => exact absurd he ((RawProof.exists_recoverRoots_iff _).mp ⟨roots, hroots⟩ p hp e)
      | error e' =>
        obtain ⟨front, q, back, hsplit, hq, hback⟩ :=
          RawProof.exists_of_recoverRoots_eq_error hroots
        exact ⟨front, q, back, e', hsplit, hq, hback, hq.refusesOperand, rfl⟩
    · intro hnone
      obtain ⟨roots, hroots⟩ := (RawProof.exists_recoverRoots_iff _).mpr hnone
      obtain ⟨values, hvalues, rfl⟩ := (RawProof.recoverRoots_eq_ok_iff _ _).mp hroots
      exact ⟨values, hvalues, by rw [hroots]; rfl⟩

/-- The endings for one digit: no items, a control item that is no number with an item below it, a
key or a stack that is not the right one, and the items of a signature. -/
theorem execute_compile_ending_smallest :
    ∃ program, Verifier.compile smallest.params = .ok program ∧
      (∃ e, execute program (Signature.blank 1).programKey [] = .error e ∧
        ((∃ op, e = .stackUnderflow op) ∨ e.RefusesOperand)) ∧
      (∃ e, execute program (Signature.blank 1).programKey ([[7]] ++ [[], [], [0, 0]]) = .error e ∧
        e.RefusesOperand) ∧
      (∃ e, execute program (Signature.blank 1).programKey ([[7]] ++ [[], [], []]) = .error e ∧
        (e = .equalVerifyFailed ∨ e = .uncleanStack 2 0)) ∧
      execute program (Signature.blank 1).programKey (Signature.blank 1).witness = .ok [1] := by
  obtain ⟨program, hprogram, hending⟩ := execute_compile_ending smallest
  obtain ⟨hany, hlong, hshape⟩ := hending (Signature.blank 1).programKey
  have hbad : IsControlError [0, 0] (.nonMinimalNumber "0000") :=
    (controlNumber_eq_error_iff _ _).mp (by decide +kernel)
  have hempty : ∀ e, ¬ IsControlError [] e := by
    intro e he
    rw [← controlNumber_eq_error_iff] at he
    nomatch he
  refine ⟨program, hprogram, (hany []).2.2.2 (by decide), ?_, ?_, ?_⟩
  · obtain ⟨-, -, -, e, -, -, -, hkind, hrun⟩ := (hlong [[7]] [[], [], [0, 0]] rfl).1
      ⟨_, List.mem_cons_self, _, hbad⟩
    exact ⟨e, hrun, hkind⟩
  · obtain ⟨values, -, hrun⟩ := (hlong [[7]] [[], [], []] rfl).2
      (List.forall_mem_singleton.mpr hempty)
    rw [hrun, if_neg (List.cons_ne_nil _ _)]
    split_ifs
    · exact ⟨_, rfl, .inr rfl⟩
    · exact ⟨_, rfl, .inl rfl⟩
  · rw [hshape (.blank 1) (by decide), if_pos rfl]
    rfl

end Scheme

end OneTimeSig
