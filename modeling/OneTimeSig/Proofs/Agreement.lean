import OneTimeSig.Proofs.Script.Acceptance
import OneTimeSig.Proofs.Signature

/-!
# Where the two verifiers agree

A signature can be verified natively and by the verifier program. Both hash the same leaf and the
same siblings, and they differ in one respect: the native verifier turns as the bits of the control
byte say, while the program splits the byte into weights, which turns to the right on every level
when the byte is beyond the tree. So each of the two accepts a signature under one key only, the
native one under `recoverPublicKey` and the program under `programKey` (`execute_witness_eq_ok_iff`),
and they agree where the two keys are the same (`verifiersAgree_iff_keys_eq`).

The turns are the same for the bytes below the number of leaves, and for those above it that end
in ones (`directions_eq_turns_iff`). For every other byte the roots differ, unless a node is its own
sibling wherever the turns differ, or strings collide: this is the exact condition
(`verifiersAgree_iff_turnsAlike`), and it can fail (`not_verifiersAgree_blank_two`).
-/

namespace OneTimeSig

open Script

/-! ## The turns of a number beyond the tree -/

/-- The program turns as the bits say for the numbers below `2 ^ depth`, and for those above it
whose lowest bits are ones. -/
theorem Script.directions_eq_turns_iff (depth v : Nat) :
    directions depth v = Path.turns depth v ↔ v < 2 ^ depth ∨ v % 2 ^ depth = 2 ^ depth - 1 := by
  have hlevels : directions depth v = Path.turns depth v ↔
      ∀ level < depth, direction depth v level = v.testBit level := by
    simp [directions, Path.turns]
  rw [hlevels]
  constructor
  · intro h
    rcases Nat.lt_or_ge v (2 ^ depth) with hlow | hhigh
    · exact .inl hlow
    · -- Every turn is to the right, so every bit below the depth is set.
      right
      apply Nat.eq_of_testBit_eq
      intro level
      rw [Nat.testBit_mod_two_pow, Nat.testBit_two_pow_sub_one]
      rcases Nat.lt_or_ge level depth with hin | hout
      · rw [← h level hin, direction, decide_eq_true hhigh, Bool.true_or, Bool.and_true]
      · rw [decide_eq_false (by omega), Bool.false_and]
  · rintro (hlow | hones) level hlevel
    · rw [direction, decide_eq_false (by omega), Bool.false_or]
    · have hbit : v.testBit level = true := by
        have hmod := Nat.testBit_mod_two_pow v depth level
        rw [hones, Nat.testBit_two_pow_sub_one, decide_eq_true hlevel, Bool.true_and] at hmod
        exact hmod.symm
      rw [direction, hbit, Bool.or_true]

/-- A single byte is a control item, and stands for its value. -/
theorem Script.controlNumber_byte (control : UInt8) :
    controlNumber [control] = .ok control.toNat := by
  have hall : ∀ n : Fin 256, controlNumber [UInt8.ofFin n] = .ok n := by decide +kernel
  exact hall control.toFin

namespace DigitProof

/-! ## One digit -/

/-- The items of a proof, as the verifier program takes them. -/
def raw (p : DigitProof) : RawProof :=
  ⟨p.siblings.map FixedBytes.toList, p.preimage.toList, [p.control]⟩

/-- The root that the verifier program recovers. -/
def programRoot (p : DigitProof) : Hash160 :=
  Path.fold (directions p.siblings.length p.control.toNat) (leafHash p.control p.preimage)
    (p.siblings.reverse.map FixedBytes.toList)

/-- The strings that the verifier program hashes to recover the root. -/
def programInputs (p : DigitProof) : List Bytes :=
  (p.control :: p.preimage.toList) ::
    Path.inputs (directions p.siblings.length p.control.toNat) (leafHash p.control p.preimage)
      (p.siblings.reverse.map FixedBytes.toList)

/-- On every level where the two verifiers turn to different sides, the node is its own sibling. -/
def TurnsAlike (p : DigitProof) : Prop :=
  Path.TurnsAlike (Path.turns p.siblings.length p.control.toNat)
    (directions p.siblings.length p.control.toNat) (leafHash p.control p.preimage)
    p.siblings.reverse

/-- The program recovers a root from every proof. -/
theorem recoverRoot_raw (p : DigitProof) : p.raw.recoverRoot = .ok p.programRoot := by
  have hroot : p.raw.root p.control.toNat = p.programRoot := by
    unfold RawProof.root programRoot raw
    rw [List.length_map, List.map_reverse]
    rfl
  unfold RawProof.recoverRoot
  rw [show p.raw.control = [p.control] from rfl, controlNumber_byte, ok_bind, hroot]
  rfl

/-- The program recovers the roots of all proofs. -/
theorem recoverRoots_raw (ps : List DigitProof) :
    RawProof.recoverRoots (ps.map raw) = .ok (ps.map programRoot) := by
  induction ps with
  | nil => rfl
  | cons p ps ih =>
    rw [List.map_cons, RawProof.recoverRoots, ih, ok_bind, recoverRoot_raw]
    rfl

/-- Both verifiers recover the same root where they turn alike. -/
theorem programRoot_eq_of_turnsAlike {p : DigitProof} (h : p.TurnsAlike) :
    p.recoverRoot = p.programRoot := by
  rw [recoverRoot_eq, programRoot]
  exact Path.fold_eq_of_turnsAlike (by simp) h

/-- When both verifiers recover the same root they turn alike, or strings collide. -/
theorem turnsAlike_or_collides {p : DigitProof} (h : p.recoverRoot = p.programRoot) :
    p.TurnsAlike ∨ Collides hash160 p.inputs p.programInputs := by
  rw [recoverRoot_eq, programRoot] at h
  rcases Path.turnsAlike_or_collides (by simp) h with ⟨-, halike⟩ | hcollides
  · exact .inl halike
  · exact .inr (hcollides.mono (List.subset_cons_self _ _) (List.subset_cons_self _ _))

/-- A control byte below the number of leaves turns alike, and so does one that is a remainder of
ones beyond it. -/
theorem turnsAlike_of_control {p : DigitProof}
    (h : p.control.toNat < 2 ^ p.siblings.length ∨
      p.control.toNat % 2 ^ p.siblings.length = 2 ^ p.siblings.length - 1) : p.TurnsAlike := by
  unfold TurnsAlike
  rw [(directions_eq_turns_iff _ _).mpr h]
  exact Path.turnsAlike_refl _ _ _

end DigitProof

namespace Signature

/-! ## All digits -/

/-- The string that the verifier program applies `hash256` to. -/
def programKeyInput (sig : Signature) : Bytes :=
  (sig.proofs.map DigitProof.programRoot).flatMap FixedBytes.toList

/-- The public key that the verifier program recovers. -/
def programKey (sig : Signature) : PublicKey :=
  hash256 sig.programKeyInput

/-- The strings that the verifier program applies `hash160` to. -/
def programInputs (sig : Signature) : List Bytes :=
  sig.proofs.flatMap DigitProof.programInputs

/-- The items of a signature are those of its proofs. -/
theorem witness_eq (sig : Signature) :
    sig.witness = (sig.proofs.map DigitProof.raw).flatMap RawProof.items := by
  rw [List.flatMap_map]
  rfl

/-- The digest of a signature is what the program reads from its control items. -/
theorem digest_raw (sig : Signature) :
    RawProof.digest (sig.proofs.map DigitProof.raw) = sig.digest := by
  unfold RawProof.digest digest
  rw [List.flatMap_map, List.map_eq_flatMap]
  rfl

/-- Proofs that turn alike lead to the same key. -/
theorem keys_eq_of_turnsAlike {sig : Signature} (h : ∀ p ∈ sig.proofs, p.TurnsAlike) :
    sig.recoverPublicKey = sig.programKey := by
  have hroots : sig.proofs.map DigitProof.recoverRoot = sig.proofs.map DigitProof.programRoot :=
    List.map_congr_left fun p hp => DigitProof.programRoot_eq_of_turnsAlike (h p hp)
  unfold recoverPublicKey programKey programKeyInput aggregate
  rw [hroots]

/-- When the keys are the same the proofs turn alike, or strings collide. -/
theorem turnsAlike_or_collides {sig : Signature} (h : sig.recoverPublicKey = sig.programKey) :
    (∀ p ∈ sig.proofs, p.TurnsAlike) ∨ Collides hash160 sig.inputs sig.programInputs ∨
      Collides hash256 [sig.keyInput] [sig.programKeyInput] := by
  have hkey : hash256 sig.keyInput = hash256 sig.programKeyInput := h
  rcases eq_or_collides hkey List.mem_cons_self List.mem_cons_self with hinput | hcollides
  · -- The roots are the same, so the first proof that does not turn alike has a collision.
    have hroots := FixedBytes.flatMap_toList_inj (by simp) hinput
    by_cases halike : ∀ p ∈ sig.proofs, p.TurnsAlike
    · exact .inl halike
    push Not at halike
    obtain ⟨p, hp, hnot⟩ := halike
    have hroot : p.recoverRoot = p.programRoot := List.map_inj_left.mp hroots p hp
    rcases DigitProof.turnsAlike_or_collides hroot with hturns | hcollides
    · exact absurd hturns hnot
    · refine .inr (.inl (hcollides.mono ?_ ?_))
      · exact fun _ => List.mem_flatMap_of_mem hp
      · exact fun _ => List.mem_flatMap_of_mem hp
  · exact .inr (.inr hcollides)

end Signature

namespace Scheme

variable {s : Scheme} {sig : Signature}

/-- The items of a signature of the shape are as many as the program takes. -/
theorem raw_of_hasShape (h : s.hasShape sig = true) :
    (sig.proofs.map DigitProof.raw).length = s.digits ∧
      ∀ p ∈ sig.proofs.map DigitProof.raw, p.siblings.length = s.depth := by
  obtain ⟨hcount, hsiblings⟩ := hasShape_iff.mp h
  rw [List.length_map, List.forall_mem_map]
  refine ⟨hcount, fun p hp => ?_⟩
  rw [← hsiblings p hp]
  exact List.length_map _

/-- The program ends on the witness of a signature with its digest, or with the comparison of the
keys. -/
theorem execute_witness_eq (h : s.hasShape sig = true) (pk : PublicKey) :
    Machine.execute (Verifier.program s.digits s.depth) pk sig.witness =
      if sig.programKey = pk then .ok sig.digest else .error .equalVerifyFailed := by
  obtain ⟨hlen, hraw⟩ := raw_of_hasShape h
  have hne : sig.proofs.map DigitProof.raw ≠ [] := by
    rw [← List.length_pos_iff, hlen]
    exact s.digits_pos
  have hrun := Verifier.execute_program_append pk s.depth_pos s.depth_le hne hraw []
  rw [hlen, List.nil_append, ← Signature.witness_eq, DigitProof.recoverRoots_raw, ok_bind,
    Signature.digest_raw, if_pos rfl] at hrun
  exact hrun

/-- The program accepts the witness of a signature under one key, and returns its digest. -/
theorem execute_witness_eq_ok_iff (h : s.hasShape sig = true) (pk : PublicKey) (out : Bytes) :
    Machine.execute (Verifier.program s.digits s.depth) pk sig.witness = .ok out ↔
      sig.programKey = pk ∧ out = sig.digest := by
  rw [execute_witness_eq h]
  split_ifs with hkey
  · rw [Except.ok.injEq, eq_comm]
    exact (and_iff_right hkey).symm
  · simp [hkey]

/-- Under every key, the native verifier and the compiled program say the same of a signature. -/
def VerifiersAgree (s : Scheme) (sig : Signature) : Prop :=
  ∃ program, Verifier.compile s.params = .ok program ∧
    ∀ pk, s.verify sig.digest sig pk = true ↔
      Machine.execute program pk sig.witness = .ok sig.digest

/-- The verifiers agree on a signature when they recover the same key. -/
theorem verifiersAgree_iff_keys_eq (h : s.hasShape sig = true) :
    s.VerifiersAgree sig ↔ sig.recoverPublicKey = sig.programKey := by
  have hnative : ∀ pk, s.verify sig.digest sig pk = true ↔ sig.recoverPublicKey = pk := by
    intro pk
    rw [verify_iff]
    exact ⟨fun hv => hv.2.2, fun hkey => ⟨h, rfl, hkey⟩⟩
  have hprogram : ∀ pk, Machine.execute (Verifier.program s.digits s.depth) pk sig.witness =
      .ok sig.digest ↔ sig.programKey = pk := by
    intro pk
    rw [execute_witness_eq_ok_iff h]
    exact ⟨fun he => he.1, fun hkey => ⟨hkey, rfl⟩⟩
  unfold VerifiersAgree
  rw [Verifier.compile_params]
  constructor
  · rintro ⟨program, hprog, hagree⟩
    obtain rfl := Except.ok.inj hprog
    -- The native verifier accepts the key that it recovers, so the program accepts it too.
    have haccepted := (hagree sig.recoverPublicKey).mp ((hnative _).mpr rfl)
    exact ((hprogram _).mp haccepted).symm
  · intro hkeys
    refine ⟨_, rfl, fun pk => ?_⟩
    rw [hnative, hprogram, hkeys]

/-- Both verifiers recover the same key from a signature of a digest that has a leaf for each digit. -/
theorem keys_eq_of_digest_lt (h : s.hasShape sig = true)
    (hdigest : ∀ b ∈ sig.digest, b.toNat < s.leafCount) :
    sig.recoverPublicKey = sig.programKey := by
  refine Signature.keys_eq_of_turnsAlike fun p hp => DigitProof.turnsAlike_of_control (.inl ?_)
  rw [(hasShape_iff.mp h).2 p hp, ← s.leafCount_eq]
  exact hdigest _ (List.mem_map_of_mem hp)

/-- The verifiers agree on a signature of the shape, under every key, when both recover the same
key. They do so when they turn alike in all proofs, as they do when every control byte is below the
number of leaves, or beyond it and a remainder of ones. Conversely, where they agree they turn alike,
unless two different strings with the same hash are found among those that each of them hashes. -/
theorem verifiersAgree_iff_turnsAlike (s : Scheme) (sig : Signature) (h : s.hasShape sig = true) :
    (s.VerifiersAgree sig ↔ sig.recoverPublicKey = sig.programKey) ∧
      ((∀ p ∈ sig.proofs, p.TurnsAlike) → s.VerifiersAgree sig) ∧
      (s.VerifiersAgree sig →
        (∀ p ∈ sig.proofs, p.TurnsAlike) ∨ Collides hash160 sig.inputs sig.programInputs ∨
          Collides hash256 [sig.keyInput] [sig.programKeyInput]) ∧
      ∀ p ∈ sig.proofs,
        p.control.toNat < s.leafCount ∨ p.control.toNat % s.leafCount = s.leafCount - 1 →
          p.TurnsAlike := by
  have hkeys := verifiersAgree_iff_keys_eq h
  refine ⟨hkeys, fun halike => ?_, fun hagree => ?_, fun p hp hcontrol => ?_⟩
  · exact hkeys.mpr (Signature.keys_eq_of_turnsAlike halike)
  · exact Signature.turnsAlike_or_collides (hkeys.mp hagree)
  · rw [s.leafCount_eq, ← (hasShape_iff.mp h).2 p hp] at hcontrol
    exact DigitProof.turnsAlike_of_control hcontrol

end Scheme

/-- A signature in the smallest scheme with nothing but zeros beside the control byte. -/
def Signature.blank (control : UInt8) : Signature :=
  ⟨[⟨[FixedBytes.ofNat 20 0], FixedBytes.ofNat 16 0, control⟩]⟩

namespace Scheme

/-- The verifiers agree on the control byte 1, which has a leaf. -/
theorem verifiersAgree_blank_one :
    smallest.hasShape (.blank 1) = true ∧ smallest.VerifiersAgree (.blank 1) := by
  have hshape : smallest.hasShape (.blank 1) = true := by decide
  obtain ⟨-, hagree, -, hcontrol⟩ := verifiersAgree_iff_turnsAlike smallest (.blank 1) hshape
  refine ⟨hshape, hagree fun p hp => hcontrol p hp (.inl ?_)⟩
  rw [List.mem_singleton.mp hp]
  decide

/-- The verifiers can disagree: the control byte 2 is beyond two leaves, where the native verifier
turns to the left and the program to the right. -/
theorem not_verifiersAgree_blank_two :
    ∃ program, Verifier.compile smallest.params = .ok program ∧
      smallest.hasShape (.blank 2) = true ∧
      smallest.verify (Signature.blank 2).digest (.blank 2) (Signature.blank 2).recoverPublicKey =
        true ∧
      Machine.execute program (Signature.blank 2).recoverPublicKey (Signature.blank 2).witness ≠
        .ok (Signature.blank 2).digest := by
  have hshape : smallest.hasShape (.blank 2) = true := by decide
  have hkeys : (Signature.blank 2).programKey ≠ (Signature.blank 2).recoverPublicKey := by
    decide +kernel
  refine ⟨_, Verifier.compile_params smallest, hshape, verify_iff.mpr ⟨hshape, rfl, rfl⟩, ?_⟩
  intro haccepted
  exact hkeys ((execute_witness_eq_ok_iff hshape _ _).mp haccepted).1

end Scheme

end OneTimeSig
