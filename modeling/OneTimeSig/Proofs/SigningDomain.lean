import OneTimeSig.Proofs.Signing

/-!
# What a key signs

A scheme signs with the key pairs of its own parameters, and with those it signs the digests that have
one digit for each tree and a leaf for each digit. Anything else is refused, and always as an input
that cannot be used: the tests of the digest, of the key and of its trees come before a leaf is looked
up, and the two tests of what was made from a tree never fail in an honest one (`sign_error`).
Conversely, what was signed has passed the test of the number of trees and that of their shape, so
the parameters of the key are those of the scheme (`params_eq_of_sign`). `sign_outcome` puts this
together with what the signature is made of.
-/

namespace OneTimeSig.Scheme

variable {s s' : Scheme} {e : Error}

/-! ## Refusals -/

/-- The digits are refused for the first that has no leaf. -/
theorem checkDigits_error {digit : Nat} {digest : Bytes}
    (he : s.checkDigits digit digest = .error e) : e.kind = .precondition := by
  induction digest generalizing digit with
  | nil =>
    unfold checkDigits at he
    cases he
  | cons value rest ih =>
    unfold checkDigits at he
    split_ifs at he
    · obtain rfl := Except.error.inj he
      rfl
    · exact ih he

/-- A digest is refused for its length or for one of its digits. -/
theorem checkDigest_error {digest : Bytes} (he : s.checkDigest digest = .error e) :
    e.kind = .precondition := by
  unfold checkDigest at he
  split_ifs at he
  · obtain rfl := Except.error.inj he
    rfl
  · exact checkDigits_error he

/-- A digit is refused for the shape of its tree or because it has no leaf there. -/
theorem proveDigit_error {digit : Nat} {t : DigitTree} {value : UInt8} (ht : t.IsHonest)
    (he : s.proveDigit digit t value = .error e) : e.kind = .precondition := by
  unfold proveDigit at he
  dsimp only at he
  split_ifs at he
  · obtain rfl := Except.error.inj he
    rfl
  rcases bind_eq_error_iff.mp he with hprove | ⟨p, hp, htest⟩
  · exact ht.kind_of_prove hprove
  · -- A proof of an honest tree leads to its root.
    have hroot : ¬ p.recoverRoot ≠ t.root := not_not.mpr (ht.recoverRoot_of_prove hp).2.2
    rw [if_neg hroot] at htest
    cases htest

/-- The digits are refused as the first of them that is refused. -/
theorem proveDigits_error {digit : Nat} {trees : List DigitTree} {digest : Bytes}
    (htrees : ∀ t ∈ trees, t.IsHonest) (he : s.proveDigits digit trees digest = .error e) :
    e.kind = .precondition := by
  induction trees generalizing digit digest with
  | nil =>
    unfold proveDigits at he
    cases he
  | cons t trees ih =>
    rw [List.forall_mem_cons] at htrees
    cases digest with
    | nil =>
      unfold proveDigits at he
      cases he
    | cons value rest =>
      unfold proveDigits at he
      rcases bind_eq_error_iff.mp he with hdigit | ⟨p, -, he⟩
      · exact proveDigit_error htrees.1 hdigit
      · rcases bind_eq_error_iff.mp he with hrest | ⟨ps, -, he⟩
        · exact ih htrees.2 hrest
        · cases he

/-- With the key of a scheme, whichever it is, nothing is refused but an input that cannot be
used. -/
theorem sign_error {key : SecretKey} {digest : Bytes} (h : s'.IsSecretKey key)
    (he : (s.sign digest key).outcome = .error e) : e.kind = .precondition := by
  unfold sign at he
  rw [Logged.outcome_bind, Logged.outcome_monadLift] at he
  rcases bind_eq_error_iff.mp he with hdigest | ⟨-, -, he⟩
  · exact checkDigest_error hdigest
  dsimp only at he
  split_ifs at he
  · obtain rfl := Except.error.inj he
    rfl
  · rw [Logged.outcome_bind, Logged.outcome_monadLift] at he
    rcases bind_eq_error_iff.mp he with hproofs | ⟨proofs, -, he⟩
    · exact proveDigits_error h.isHonest hproofs
    · cases he

/-! ## Parameters -/

/-- A digit that is proved has a tree with as many leaves as it has values. -/
theorem size_leaves_of_proveDigit {digit : Nat} {t : DigitTree} {value : UInt8} {p : DigitProof}
    (h : s.proveDigit digit t value = .ok p) : t.leaves.size = s.leafCount := by
  unfold proveDigit at h
  dsimp only at h
  split_ifs at h with hshape
  · cases h
  · exact (not_not.mp (not_or.mp hshape).1)

/-- So have all digits that are proved. -/
theorem size_leaves_of_proveDigits {digit : Nat} {trees : List DigitTree} {digest : Bytes}
    {proofs : List DigitProof} (hlen : trees.length = digest.length)
    (h : s.proveDigits digit trees digest = .ok proofs) :
    ∀ t ∈ trees, t.leaves.size = s.leafCount := by
  induction trees generalizing digit digest proofs with
  | nil => exact List.forall_mem_nil _
  | cons t trees ih =>
    obtain ⟨value, rest, rfl⟩ := List.exists_cons_of_length_eq_add_one hlen.symm
    unfold proveDigits at h
    obtain ⟨p, hp, h⟩ := bind_eq_ok_iff.mp h
    obtain ⟨ps, hps, -⟩ := bind_eq_ok_iff.mp h
    exact List.forall_mem_cons.mpr
      ⟨size_leaves_of_proveDigit hp, ih (by simpa using hlen) hps⟩

/-- A scheme signs only with the keys of its own parameters. -/
theorem params_eq_of_sign {key : SecretKey} {digest : Bytes} {sig : Signature}
    (h : s'.IsSecretKey key) (hsign : (s.sign digest key).outcome = .ok sig) :
    s.params = s'.params := by
  obtain ⟨hdigest, hcount, hproofs⟩ := sign_outcome_eq_ok_iff.mp hsign
  have hlen : key.trees.length = digest.length := by
    rw [hcount, (checkDigest_eq_ok_iff.mp hdigest).1]
  have hdigits : s.digits = s'.digits := by rw [← hcount, h.length_trees]
  have hleafCount : s.leafCount = s'.leafCount := by
    -- There is a tree to compare, as there is a digit.
    have hpos : 0 < key.trees.length := hcount ▸ s.digits_pos
    have hmem := List.getElem_mem hpos
    rw [← size_leaves_of_proveDigits hlen hproofs _ hmem, DigitTree.size_leaves,
      leafCount_tree (h.depth_eq _ hmem)]
  exact params_eq_of_toNat hdigits hleafCount

/-! ## Signing -/

/-- With a key pair of any parameters, a scheme signs exactly when the parameters are its own and the
digest has one digit for each tree and a leaf for each digit. The signature then is of this digest and
leads to the public key: for each digit it has the path of the digit's leaf, the preimage of that leaf
and the digit, and leads to the root of the digit's tree. In every other case the input is refused. -/
theorem sign_outcome (s s' : Scheme) (secret : MasterSecret) (kp : KeyPair)
    (hkp : (s'.keyPair secret).outcome = .ok kp) (digest : Bytes) :
    ((∃ sig, (s.sign digest kp.secretKey).outcome = .ok sig) ↔
      s.params = s'.params ∧ digest.length = s.digits ∧ ∀ b ∈ digest, b.toNat < s.leafCount) ∧
    (∀ sig, (s.sign digest kp.secretKey).outcome = .ok sig →
      (∀ digit < s.digits, ∃ tree value path leaf proof,
        kp.secretKey.trees[digit]? = some tree ∧ digest[digit]? = some value ∧
          tree.tree.authPath value.toNat = .ok path ∧ tree.leaves[value.toNat]? = some leaf ∧
          sig.proofs[digit]? = some proof ∧ proof = ⟨path.reverse, leaf.preimage, value⟩ ∧
          proof.recoverRoot = tree.root) ∧
      sig.digest = digest ∧ sig.recoverPublicKey = kp.publicKey) ∧
    ∀ e, (s.sign digest kp.secretKey).outcome = .error e → e.kind = .precondition := by
  obtain ⟨hkey', hpublic⟩ := isSecretKey_of_keyPair hkp
  refine ⟨⟨?_, ?_⟩, fun sig hsign => ?_, fun e he => sign_error hkey' he⟩
  · rintro ⟨sig, hsign⟩
    have hdigest := (sign_outcome_eq_ok_iff.mp hsign).1
    exact ⟨params_eq_of_sign hkey' hsign, checkDigest_eq_ok_iff.mp hdigest⟩
  · rintro ⟨hparams, hlen, hdigest⟩
    obtain rfl := eq_of_params hparams
    obtain ⟨sig, hsig⟩ := hkey'.exists_proves hlen hdigest
    exact ⟨sig, hkey'.sign_eq_ok_iff.mpr hsig⟩
  · obtain rfl := eq_of_params (params_eq_of_sign hkey' hsign)
    obtain ⟨hproves, rfl⟩ := hkey'.sign_eq_ok_iff.mp hsign
    refine ⟨fun digit hdigit => hkey'.exists_leaf_of_proves hproves hdigit, rfl, ?_⟩
    rw [hkey'.recoverPublicKey_of_proves hproves, hpublic]

/-- In the smallest scheme the digit 1 is signed, and the digit 2 has no leaf and is refused. -/
theorem sign_outcome_smallest :
    ∃ kp sig e, (smallest.keyPair ⟨FixedBytes.ofNat 32 0⟩).outcome = .ok kp ∧
      (smallest.sign [1] kp.secretKey).outcome = .ok sig ∧ sig.digest = [1] ∧
      sig.recoverPublicKey = kp.publicKey ∧
      (smallest.sign [2] kp.secretKey).outcome = .error e ∧ e.kind = .precondition := by
  obtain ⟨kp, hkp⟩ := exists_keyPair_smallest
  obtain ⟨hsigned, hmade, -⟩ := sign_outcome smallest smallest _ kp hkp [1]
  obtain ⟨hunsigned, -, hrefused⟩ := sign_outcome smallest smallest _ kp hkp [2]
  have hdigit : ∀ b ∈ [(1 : UInt8)], b.toNat < smallest.leafCount :=
    List.forall_mem_singleton.mpr (by decide)
  have hnoLeaf : ¬ ∀ b ∈ [(2 : UInt8)], b.toNat < smallest.leafCount := fun h =>
    absurd (List.forall_mem_singleton.mp h) (by decide)
  obtain ⟨sig, hsign⟩ := hsigned.mpr ⟨rfl, rfl, hdigit⟩
  obtain ⟨-, hdigest, hkey⟩ := hmade sig hsign
  cases hother : (smallest.sign [2] kp.secretKey).outcome with
  | ok sig' => exact absurd (hunsigned.mp ⟨sig', hother⟩).2.2 hnoLeaf
  | error e => exact ⟨kp, sig, e, hkp, hsign, hdigest, hkey, hother, hrefused e hother⟩

end OneTimeSig.Scheme
