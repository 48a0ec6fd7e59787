import OneTimeSig.Proofs.KeyPair
import OneTimeSig.Proofs.Signature

/-!
# What signing gives

Signing goes through the trees and the digits side by side. In an honest tree the tests that are made
on the way never fail, so what is left is that each proof is the one that its tree gives of its digit
(`SecretKey.Proves`): a key signs a digest with exactly the signature of that digest which it proves
(`sign_eq_ok_iff`). Every digest that has a leaf for each digit has one (`exists_proves`), and it has
the shape of the scheme and leads to the public key.
-/

namespace OneTimeSig

/-- Each proof of the signature is the one that the tree of its place gives of its digit. -/
def SecretKey.Proves (key : SecretKey) (sig : Signature) : Prop :=
  List.Forall₂ (fun t p => t.prove p.control = .ok p) key.trees sig.proofs

namespace Scheme

variable {s : Scheme}

/-! ## One digit -/

/-- An honest tree of the scheme has a leaf for each value of a digit. -/
theorem leafCount_tree {t : DigitTree} (hdepth : t.tree.depth = s.depth) :
    t.tree.leafCount = s.leafCount := by
  rw [t.tree.leafCount_eq_two_pow, hdepth, s.leafCount_eq]

/-- A digit is proved as its tree proves it: the tests of the tree and of the proof never fail. -/
theorem proveDigit_eq_ok_iff {digit : Nat} {t : DigitTree} {value : UInt8} {p : DigitProof}
    (ht : t.IsHonest) (hdepth : t.tree.depth = s.depth) :
    s.proveDigit digit t value = .ok p ↔ t.prove value = .ok p := by
  have hshape : ¬ (t.leaves.size ≠ s.leafCount ∨ t.tree.depth ≠ s.depth) := by
    rw [t.size_leaves, leafCount_tree hdepth]
    simp [hdepth]
  unfold proveDigit
  dsimp only
  rw [if_neg hshape, bind_eq_ok_iff]
  constructor
  · rintro ⟨q, hq, h⟩
    have hroot : ¬ q.recoverRoot ≠ t.root := not_not.mpr (ht.recoverRoot_of_prove hq).2.2
    rw [if_neg hroot] at h
    rw [hq]
    exact h
  · intro hp
    have hroot : ¬ p.recoverRoot ≠ t.root := not_not.mpr (ht.recoverRoot_of_prove hp).2.2
    exact ⟨p, hp, if_neg hroot⟩

/-! ## All digits -/

/-- The digits pass the test when each of them has a leaf. -/
theorem checkDigits_eq_ok_iff {digit : Nat} {digest : Bytes} :
    s.checkDigits digit digest = .ok () ↔ ∀ b ∈ digest, b.toNat < s.leafCount := by
  induction digest generalizing digit with
  | nil => simp [checkDigits]
  | cons value rest ih =>
    rw [List.forall_mem_cons, checkDigits]
    rcases Nat.lt_or_ge value.toNat s.leafCount with hvalue | hvalue
    · rw [if_neg (by omega), ih]
      exact (and_iff_right hvalue).symm
    · rw [if_pos hvalue]
      constructor
      · intro h
        nomatch h
      · intro h
        omega

/-- The digest passes the test when there is a digit for each tree and each digit has a leaf. -/
theorem checkDigest_eq_ok_iff {digest : Bytes} :
    s.checkDigest digest = .ok () ↔
      digest.length = s.digits ∧ ∀ b ∈ digest, b.toNat < s.leafCount := by
  unfold checkDigest
  split_ifs with hlen
  · simp [hlen]
  · rw [checkDigits_eq_ok_iff, and_iff_right (not_not.mp hlen)]

/-- What signing tests and makes, for a key of any kind. -/
theorem sign_outcome_eq_ok_iff {key : SecretKey} {digest : Bytes} {sig : Signature} :
    (s.sign digest key).outcome = .ok sig ↔
      s.checkDigest digest = .ok () ∧ key.trees.length = s.digits ∧
        s.proveDigits 0 key.trees digest = .ok sig.proofs := by
  unfold sign
  rw [Logged.outcome_bind, Logged.outcome_monadLift, bind_eq_ok_iff]
  dsimp only
  by_cases hcount : key.trees.length = s.digits
  · rw [if_neg (not_not.mpr hcount), and_iff_right hcount]
    simp only [Logged.outcome_bind, Logged.outcome_monadLift, bind_eq_ok_iff]
    constructor
    · rintro ⟨⟨⟩, hcheck, proofs, hproofs, -, -, hsig⟩
      obtain rfl : (⟨proofs⟩ : Signature) = sig := Except.ok.inj hsig
      exact ⟨hcheck, hproofs⟩
    · rintro ⟨hcheck, hproofs⟩
      exact ⟨(), hcheck, sig.proofs, hproofs, (), rfl, rfl⟩
  · rw [if_pos hcount]
    constructor
    · rintro ⟨-, -, h⟩
      cases h
    · rintro ⟨-, h, -⟩
      exact absurd h hcount

/-- The digits are proved with the proofs of the trees. -/
theorem proveDigits_eq_ok_iff {digit : Nat} {trees : List DigitTree} {digest : Bytes}
    {proofs : List DigitProof} (htrees : ∀ t ∈ trees, t.IsHonest)
    (hdepth : ∀ t ∈ trees, t.tree.depth = s.depth) (hlen : trees.length = digest.length) :
    s.proveDigits digit trees digest = .ok proofs ↔
      List.Forall₂ (fun t p => t.prove p.control = .ok p) trees proofs ∧
        proofs.map DigitProof.control = digest := by
  -- Every digit is proved by the tree of its place, so trees and digits are used up together.
  induction trees generalizing digit digest proofs with
  | nil =>
    rw [List.length_nil, eq_comm, List.length_eq_zero_iff] at hlen
    rw [hlen, List.forall₂_nil_left_iff, List.map_eq_nil_iff, and_self]
    exact ⟨fun h => (Except.ok.inj h).symm, fun h => h ▸ rfl⟩
  | cons t trees ih =>
    obtain ⟨value, rest, rfl⟩ := List.exists_cons_of_length_eq_add_one hlen.symm
    rw [List.forall_mem_cons] at htrees hdepth
    have hrest : trees.length = rest.length := by simpa using hlen
    rw [proveDigits, bind_eq_ok_iff]
    constructor
    · rintro ⟨p, hp, h⟩
      obtain ⟨ps, hps, h⟩ := bind_eq_ok_iff.mp h
      obtain rfl : p :: ps = proofs := Except.ok.inj h
      have hprove := (proveDigit_eq_ok_iff htrees.1 hdepth.1).mp hp
      have hcontrol : p.control = value := (htrees.1.recoverRoot_of_prove hprove).1
      obtain ⟨hall, hcontrols⟩ := (ih htrees.2 hdepth.2 hrest).mp hps
      rw [List.map_cons, hcontrol, hcontrols]
      rw [← hcontrol] at hprove
      exact ⟨.cons hprove hall, rfl⟩
    · rintro ⟨hall, hcontrols⟩
      obtain ⟨p, ps, hprove, hothers, rfl⟩ := List.forall₂_cons_left_iff.mp hall
      obtain ⟨rfl, hdigits⟩ := List.cons_eq_cons.mp hcontrols
      refine ⟨p, (proveDigit_eq_ok_iff htrees.1 hdepth.1).mpr hprove, ?_⟩
      rw [(ih htrees.2 hdepth.2 hrest).mpr ⟨hothers, hdigits⟩]
      rfl

/-- Proofs of the digits that have a leaf. -/
theorem exists_forall₂_prove {trees : List DigitTree} {digest : Bytes}
    (htrees : ∀ t ∈ trees, t.IsHonest) (hdepth : ∀ t ∈ trees, t.tree.depth = s.depth)
    (hlen : trees.length = digest.length) (hdigest : ∀ b ∈ digest, b.toNat < s.leafCount) :
    ∃ proofs, List.Forall₂ (fun t p => t.prove p.control = .ok p) trees proofs ∧
      proofs.map DigitProof.control = digest := by
  induction trees generalizing digest with
  | nil =>
    rw [List.length_nil, eq_comm, List.length_eq_zero_iff] at hlen
    exact ⟨[], .nil, hlen.symm⟩
  | cons t trees ih =>
    obtain ⟨value, rest, rfl⟩ := List.exists_cons_of_length_eq_add_one hlen.symm
    rw [List.forall_mem_cons] at htrees hdepth hdigest
    have hvalue : value.toNat < t.tree.leafCount := by
      rw [leafCount_tree hdepth.1]
      exact hdigest.1
    obtain ⟨p, hp⟩ : ∃ p, t.prove value = .ok p := ⟨_, htrees.1.prove_eq hvalue⟩
    obtain rfl : p.control = value := (htrees.1.recoverRoot_of_prove hp).1
    obtain ⟨ps, hall, rfl⟩ := ih htrees.2 hdepth.2 (by simpa using hlen) hdigest.2
    exact ⟨p :: ps, .cons hp hall, rfl⟩

namespace IsSecretKey

variable {key : SecretKey} (h : s.IsSecretKey key)
include h

/-! ## Signatures -/

/-- There is a signature for every digest that has a leaf for each digit. -/
theorem exists_proves {digest : Bytes} (hlen : digest.length = s.digits)
    (hdigest : ∀ b ∈ digest, b.toNat < s.leafCount) :
    ∃ sig, key.Proves sig ∧ sig.digest = digest := by
  have hcount : key.trees.length = digest.length := by rw [h.length_trees, hlen]
  obtain ⟨proofs, hall, hcontrols⟩ :=
    exists_forall₂_prove h.isHonest h.depth_eq hcount hdigest
  exact ⟨⟨proofs⟩, hall, hcontrols⟩

/-- Every digit of a signature that the key proves has a leaf. -/
theorem lt_of_proves {sig : Signature} (hsig : key.Proves sig) :
    ∀ b ∈ sig.digest, b.toNat < s.leafCount := by
  intro b hb
  obtain ⟨p, hp, rfl⟩ := List.mem_map.mp hb
  obtain ⟨i, hi, rfl⟩ := List.getElem_of_mem hp
  have hi' : i < key.trees.length := by rwa [hsig.length_eq]
  have ht := List.getElem_mem hi'
  have hlt : _ < key.trees[i].tree.leafCount := DigitTree.lt_of_prove (hsig.get hi' hi)
  rwa [leafCount_tree (h.depth_eq _ ht)] at hlt

/-- A key signs a digest with exactly the signature of that digest which it proves. -/
theorem sign_eq_ok_iff {digest : Bytes} {sig : Signature} :
    (s.sign digest key).outcome = .ok sig ↔ key.Proves sig ∧ sig.digest = digest := by
  rw [sign_outcome_eq_ok_iff, checkDigest_eq_ok_iff, and_iff_right h.length_trees]
  constructor
  · rintro ⟨⟨hlen, -⟩, hproofs⟩
    have hcount : key.trees.length = digest.length := by rw [h.length_trees, hlen]
    exact (proveDigits_eq_ok_iff h.isHonest h.depth_eq hcount).mp hproofs
  · rintro ⟨hsig, rfl⟩
    have hcount : key.trees.length = sig.digest.length := by
      rw [hsig.length_eq, Signature.digest, List.length_map]
    refine ⟨⟨by rw [← hcount, h.length_trees], h.lt_of_proves hsig⟩, ?_⟩
    exact (proveDigits_eq_ok_iff h.isHonest h.depth_eq hcount).mpr ⟨hsig, rfl⟩

/-- A signature that the key proves has the shape of the scheme. -/
theorem hasShape_of_proves {sig : Signature} (hsig : key.Proves sig) : s.hasShape sig = true := by
  refine hasShape_iff.mpr ⟨by rw [← hsig.length_eq, h.length_trees], fun p hp => ?_⟩
  obtain ⟨i, hi, rfl⟩ := List.getElem_of_mem hp
  have hi' : i < key.trees.length := by rwa [hsig.length_eq]
  have ht := List.getElem_mem hi'
  have hsiblings := ((h.isHonest _ ht).recoverRoot_of_prove (hsig.get hi' hi)).2.1
  rw [← h.depth_eq _ ht]
  exact hsiblings

/-- What a signature that the key proves holds for a digit: the path of the digit's leaf, the preimage
of that leaf and the digit, which lead to the root of the digit's tree. -/
theorem exists_leaf_of_proves {sig : Signature} (hsig : key.Proves sig) {digit : Nat}
    (hdigit : digit < s.digits) :
    ∃ tree value path leaf proof, key.trees[digit]? = some tree ∧
      sig.digest[digit]? = some value ∧ tree.tree.authPath value.toNat = .ok path ∧
      tree.leaves[value.toNat]? = some leaf ∧ sig.proofs[digit]? = some proof ∧
      proof = ⟨path.reverse, leaf.preimage, value⟩ ∧ proof.recoverRoot = tree.root := by
  have htree : digit < key.trees.length := by rwa [h.length_trees]
  have hproof : digit < sig.proofs.length := by rwa [← hsig.length_eq]
  have hhonest := h.isHonest _ (List.getElem_mem htree)
  have hprove : key.trees[digit].prove sig.proofs[digit].control = .ok sig.proofs[digit] :=
    hsig.get htree hproof
  have hlt := DigitTree.lt_of_prove hprove
  have hleaf : sig.proofs[digit].control.toNat < key.trees[digit].leaves.size := by
    rwa [DigitTree.size_leaves]
  have hdigest : sig.digest[digit]? = some sig.proofs[digit].control := by
    rw [Signature.digest, List.getElem?_map, List.getElem?_eq_getElem hproof, Option.map_some]
  refine ⟨_, _, _, _, _, List.getElem?_eq_getElem htree, hdigest, hhonest.isOver.authPath_eq hlt,
    Array.getElem?_eq_getElem hleaf, List.getElem?_eq_getElem hproof, ?_,
    (hhonest.recoverRoot_of_prove hprove).2.2⟩
  rw [hhonest.prove_eq hlt] at hprove
  exact (Except.ok.inj hprove).symm

/-- A signature that the key proves leads to the roots of the key. -/
theorem recoverRoot_of_proves {sig : Signature} (hsig : key.Proves sig) :
    sig.proofs.map DigitProof.recoverRoot = key.roots := by
  refine List.ext_getElem ?_ fun i hi hi' => ?_
  · rw [List.length_map, SecretKey.roots, List.length_map, hsig.length_eq]
  · rw [List.length_map] at hi
    rw [SecretKey.roots, List.length_map] at hi'
    have hroot := (h.isHonest _ (List.getElem_mem hi')).recoverRoot_of_prove (hsig.get hi' hi)
    rw [List.getElem_map]
    simp only [SecretKey.roots, List.getElem_map]
    exact hroot.2.2

/-- A signature that the key proves leads to its public key. -/
theorem recoverPublicKey_of_proves {sig : Signature} (hsig : key.Proves sig) :
    sig.recoverPublicKey = aggregate key.roots := by
  rw [Signature.recoverPublicKey, h.recoverRoot_of_proves hsig]

/-- A signature that the key proves is verified. -/
theorem verify_of_proves {sig : Signature} (hsig : key.Proves sig) :
    s.verify sig.digest sig (aggregate key.roots) = true :=
  verify_iff.mpr ⟨h.hasShape_of_proves hsig, rfl, h.recoverPublicKey_of_proves hsig⟩

end IsSecretKey

end Scheme

end OneTimeSig
