import OneTimeSig.Proofs.Completeness

/-!
# The width of the digest that the program returns

The program returns the control items of all digits in a row, and nothing in it asks how many bytes
such an item has. An item that stands for a number has at most four bytes and may have none, so this
is what a digit can add to the digest. `digest_width` says so of the compiled program, and that every
choice of widths occurs.

The bytes of a control item and those of the preimage are hashed in a row, and the empty item stands
for the same number as the byte 0. So where a digit is 0, its byte can be moved to the front of the
preimage item (`RawProof.merged`): the program goes on to accept the witness under the same key, and
returns a digest that is one byte short (`execute_merged`). No key has to be made for this, as a
signature by any key will do (`not_digest_width_smallest`).
-/

namespace OneTimeSig

open Script Script.Machine

namespace Script

/-- The empty item stands for 0. -/
theorem controlNumber_nil : controlNumber [] = .ok 0 := rfl

/-- Items of every width up to four bytes can stand for a number. -/
theorem exists_isControlValue_replicate {width : Nat} (h : width ≤ 4) :
    ∃ v, IsControlValue (List.replicate width 1) v := by
  have hall : ∀ width : Fin 5, (controlNumber (List.replicate width 1)).isOk = true := by
    decide +kernel
  obtain ⟨v, hnumber⟩ := exists_eq_ok_of_isOk (hall ⟨width, by omega⟩)
  exact ⟨v, (controlNumber_eq_ok_iff _ v).mp hnumber⟩

namespace RawProof

/-- The items with the control item moved to the front of the preimage item, which leaves it empty. -/
def merged (p : RawProof) : RawProof :=
  ⟨p.siblings, p.control ++ p.preimage, []⟩

/-- A digit that is 0 leads to the same root when its byte is moved. -/
theorem recoverRoot_merged {p : RawProof} (h : p.control = [0x00]) :
    p.merged.recoverRoot = p.recoverRoot := by
  have hbyte : controlNumber p.control = .ok 0 := by
    rw [h]
    exact controlNumber_byte 0
  have hnil : controlNumber p.merged.control = .ok 0 := controlNumber_nil
  unfold recoverRoot
  rw [hnil, hbyte]
  rfl

/-- All digits lead to the same roots when the byte of one of them is moved. -/
theorem recoverRoots_merged {p : RawProof} (h : p.control = [0x00]) (front back : List RawProof) :
    recoverRoots (front ++ p.merged :: back) = recoverRoots (front ++ p :: back) := by
  induction front with
  | nil =>
    rw [List.nil_append, List.nil_append, recoverRoots, recoverRoots, recoverRoot_merged h]
  | cons q front ih => rw [List.cons_append, List.cons_append, recoverRoots, recoverRoots, ih]

end RawProof

end Script

/-- The items of a proof with the control byte moved to the front of the preimage item. -/
def DigitProof.mergedWitness (p : DigitProof) : List Bytes :=
  p.siblings.map FixedBytes.toList ++ [p.control :: p.preimage.toList, []]

namespace Scheme

variable {s : Scheme} {pk : PublicKey}

/-- The program accepts the items of all digits when they lead to the key. -/
theorem execute_items_eq_ok_iff {ps : List RawProof} (hcount : ps.length = s.digits)
    (hps : ∀ p ∈ ps, p.siblings.length = s.depth) (out : Bytes) :
    execute (Verifier.program s.digits s.depth) pk (ps.flatMap RawProof.items) = .ok out ↔
      ∃ roots, RawProof.recoverRoots ps = .ok roots ∧ aggregate roots = pk ∧
        out = RawProof.digest ps := by
  rw [Verifier.execute_program_eq_ok_iff pk s.depth_pos s.depth_le s.digits_pos, ← hcount,
    RawProof.read_flatMap_items hps, RawProof.length_flatMap_items hps]
  exact and_iff_right rfl

/-- A witness that is accepted is accepted again when the byte of a digit that is 0 is moved, and the
digest is without this byte then. -/
theorem execute_merged {front back : List RawProof} {p : RawProof} {out : Bytes}
    (hcount : (front ++ p :: back).length = s.digits)
    (hps : ∀ q ∈ front ++ p :: back, q.siblings.length = s.depth) (hzero : p.control = [0x00])
    (h : execute (Verifier.program s.digits s.depth) pk
      ((front ++ p :: back).flatMap RawProof.items) = .ok out) :
    execute (Verifier.program s.digits s.depth) pk
      ((front ++ p.merged :: back).flatMap RawProof.items) =
        .ok (RawProof.digest (front ++ back)) := by
  have hcount' : (front ++ p.merged :: back).length = s.digits := by
    rw [← hcount, List.length_append, List.length_append, List.length_cons, List.length_cons]
  have hps' : ∀ q ∈ front ++ p.merged :: back, q.siblings.length = s.depth := by
    rw [List.forall_mem_append, List.forall_mem_cons] at hps ⊢
    exact hps
  obtain ⟨roots, hroots, hkey, -⟩ := (execute_items_eq_ok_iff hcount hps out).mp h
  refine (execute_items_eq_ok_iff hcount' hps' _).mpr ⟨roots, ?_, hkey, ?_⟩
  · rw [RawProof.recoverRoots_merged hzero, hroots]
  · simp [RawProof.digest, RawProof.merged]

/-- Digits of any widths up to four bytes are accepted under some key. -/
theorem exists_execute_of_widths (s : Scheme) {widths : List Nat} (hcount : widths.length = s.digits)
    (hwidths : ∀ w ∈ widths, w ≤ 4) :
    ∃ pk ps, ps.length = s.digits ∧ (∀ p ∈ ps, p.siblings.length = s.depth) ∧
      ps.map (fun p => p.control.length) = widths ∧
      execute (Verifier.program s.digits s.depth) pk (ps.flatMap RawProof.items) =
        .ok (RawProof.digest ps) := by
  generalize hps : (widths.map fun w =>
    (⟨List.replicate s.depth [], [], List.replicate w 1⟩ : RawProof)) = ps
  have hlen : ps.length = s.digits := by rw [← hps, List.length_map, hcount]
  have hsiblings : ∀ p ∈ ps, p.siblings.length = s.depth := by
    rw [← hps, List.forall_mem_map]
    exact fun w _ => List.length_replicate
  have hcontrols : ps.map (fun p => p.control.length) = widths := by
    rw [← hps, List.map_map]
    exact List.map_id'' (fun w => List.length_replicate) widths
  have hnone : ∀ p ∈ ps, ∀ e, ¬ IsControlError p.control e := by
    rw [← hps, List.forall_mem_map]
    exact fun w hw => (exists_isControlValue_iff _).mp (exists_isControlValue_replicate (hwidths w hw))
  obtain ⟨roots, hroots⟩ := (RawProof.exists_recoverRoots_iff ps).mpr hnone
  exact ⟨aggregate roots, ps, hlen, hsiblings, hcontrols,
    (execute_items_eq_ok_iff hlen hsiblings _).mpr ⟨roots, hroots, rfl, rfl⟩⟩

/-- The signature of a digest with a digit that is 0 is accepted again when the byte of this digit is
moved, with a digest that is one byte short. -/
theorem execute_mergedWitness {sig : Signature} {front back : List DigitProof} {p : DigitProof}
    (hshape : s.hasShape sig = true) (hproofs : sig.proofs = front ++ p :: back)
    (hzero : p.control = 0)
    (h : execute (Verifier.program s.digits s.depth) pk sig.witness = .ok sig.digest) :
    execute (Verifier.program s.digits s.depth) pk
      (front.flatMap DigitProof.witness ++ p.mergedWitness ++ back.flatMap DigitProof.witness) =
        .ok ((front ++ back).map DigitProof.control) := by
  obtain ⟨hcount, hsiblings⟩ := raw_of_hasShape hshape
  have hbyte : p.raw.control = [0x00] := by rw [DigitProof.raw, hzero]
  have hraw : sig.proofs.map DigitProof.raw =
      front.map DigitProof.raw ++ p.raw :: back.map DigitProof.raw := by
    rw [hproofs, List.map_append, List.map_cons]
  rw [Signature.witness_eq] at h
  rw [hraw] at hcount hsiblings h
  have hmerged := execute_merged hcount hsiblings hbyte h
  rw [← List.map_append, Signature.digest_raw ⟨front ++ back⟩, List.flatMap_append,
    List.flatMap_cons, ← Signature.witness_eq ⟨front⟩, ← Signature.witness_eq ⟨back⟩,
    ← List.append_assoc] at hmerged
  exact hmerged

/-- The digest that the compiled program returns is made of the control items, each of which has at
most four bytes, so it has one byte for each digit when every control item has one. The program does
not ask for this: all widths up to four bytes occur, and a signature of a digest with a digit that is 0
is accepted, under the same key, without this digit. -/
theorem digest_width (s : Scheme) :
    ∃ program, Verifier.compile s.params = .ok program ∧
      (∀ pk witness out, execute program pk witness = .ok out →
        out = (RawProof.read s.depth s.digits witness).flatMap RawProof.control ∧
          (∀ p ∈ RawProof.read s.depth s.digits witness, p.control.length ≤ 4) ∧
          ((∀ p ∈ RawProof.read s.depth s.digits witness, p.control.length = 1) →
            out.length = s.digits)) ∧
      (∀ widths : List Nat, widths.length = s.digits → (∀ w ∈ widths, w ≤ 4) →
        ∃ pk witness out, execute program pk witness = .ok out ∧
          (RawProof.read s.depth s.digits witness).map (fun p => p.control.length) = widths) ∧
      ∀ pk sig front p back, s.hasShape sig = true → sig.proofs = front ++ p :: back →
        p.control = 0 → execute program pk sig.witness = .ok sig.digest →
          execute program pk
            (front.flatMap DigitProof.witness ++ p.mergedWitness ++ back.flatMap DigitProof.witness) =
              .ok ((front ++ back).map DigitProof.control) := by
  refine ⟨_, Verifier.compile_params s, fun pk witness out hrun => ?_, fun widths hcount hwidths => ?_,
    fun pk sig front p back hshape hproofs hzero hrun =>
      execute_mergedWitness hshape hproofs hzero hrun⟩
  · obtain ⟨-, roots, hroots, -, rfl⟩ :=
      (Verifier.execute_program_eq_ok_iff pk s.depth_pos s.depth_le s.digits_pos _ _).mp hrun
    refine ⟨rfl, RawProof.length_control_le hroots, fun hone => ?_⟩
    rw [RawProof.digest, List.length_flatMap, List.map_congr_left hone]
    simp
  · obtain ⟨pk, ps, hlen, hsiblings, hcontrols, hrun⟩ := s.exists_execute_of_widths hcount hwidths
    refine ⟨pk, _, _, hrun, ?_⟩
    rw [← hlen, RawProof.read_flatMap_items hsiblings, hcontrols]

/-- For one digit the digest can have four bytes, and the items of the blank signature of the digit
0 are accepted with this digit moved out of the digest. -/
theorem digest_width_smallest :
    ∃ program, Verifier.compile smallest.params = .ok program ∧
      (∃ pk witness out, execute program pk witness = .ok out ∧ out.length = 4) ∧
      execute program (Signature.blank 0).programKey
        [List.replicate 20 0, List.replicate 17 0, []] = .ok [] := by
  obtain ⟨program, hprogram, haccepted, hwidths, hmoved⟩ := digest_width smallest
  obtain rfl := Except.ok.inj (hprogram.symm.trans (Verifier.compile_params smallest))
  obtain ⟨pk, witness, out, hrun, hfour⟩ :=
    hwidths [4] rfl (List.forall_mem_singleton.mpr le_rfl)
  refine ⟨_, hprogram, ⟨pk, witness, out, hrun, ?_⟩, ?_⟩
  · rw [(haccepted pk witness out hrun).1, List.length_flatMap, hfour]
    rfl
  · have hshape : smallest.hasShape (.blank 0) = true := by decide
    have hrun := (execute_witness_eq_ok_iff hshape _ _).mpr ⟨rfl, rfl⟩
    exact hmoved _ (.blank 0) [] _ [] hshape rfl rfl hrun

/-- The program does not only authenticate digests of full length. Under the key pair of the secret of
zeros it accepts the signature of a digest of one digit with this digit moved, and returns no digit at
all. -/
theorem not_digest_width_smallest :
    ∃ program kp sig p, Verifier.compile smallest.params = .ok program ∧
      (smallest.keyPair ⟨FixedBytes.ofNat 32 0⟩).outcome = .ok kp ∧
      (smallest.sign [0] kp.secretKey).outcome = .ok sig ∧ sig.proofs = [p] ∧
      execute program kp.publicKey p.mergedWitness = .ok [] ∧
      ([] : Bytes).length ≠ smallest.digits := by
  obtain ⟨kp, hkp⟩ := exists_keyPair_smallest
  obtain ⟨hkey, hpublic⟩ := isSecretKey_of_keyPair hkp
  have hlen : [(0 : UInt8)].length = smallest.digits := rfl
  have hdigit : ∀ b ∈ [(0 : UInt8)], b.toNat < smallest.leafCount :=
    List.forall_mem_singleton.mpr (by decide)
  obtain ⟨sig, hproves, hdigest⟩ := hkey.exists_proves hlen hdigit
  have hshape := hkey.hasShape_of_proves hproves
  have hrun := hkey.execute_of_proves hproves
  rw [← hpublic] at hrun
  obtain ⟨p, hproof⟩ := List.length_eq_one_iff.mp (hasShape_iff.mp hshape).1
  have hzero : p.control = 0 := by
    rw [Signature.digest, hproof, List.map_singleton] at hdigest
    exact List.head_eq_of_cons_eq hdigest
  have hsplit : sig.proofs = [] ++ p :: [] := hproof
  have hmoved := execute_mergedWitness hshape hsplit hzero hrun
  rw [List.flatMap_nil, List.nil_append, List.append_nil] at hmoved
  exact ⟨_, kp, sig, p, Verifier.compile_params smallest, hkp,
    hkey.sign_eq_ok_iff.mpr ⟨hproves, hdigest⟩, hproof, hmoved, by decide⟩

end Scheme

end OneTimeSig
