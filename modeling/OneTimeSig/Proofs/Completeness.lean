import OneTimeSig.Proofs.Agreement
import OneTimeSig.Proofs.Signing

/-!
# Honest signatures are accepted

A key pair of any secret signs every digest that has a leaf for each digit. What is known of the
signature says the rest: it has the shape of the scheme, so its bytes are as many as the parameters
say and are read back, and it leads to the roots of the key, so the native verifier accepts it. Since
its control bytes are below the number of leaves, the verifier program turns as the native verifier
does, recovers the same key and accepts it too (`programKey_of_proves`, `execute_of_proves`).
`sign_complete` puts this together.
-/

namespace OneTimeSig.Scheme

open Script

/-- The program accepts a signature that a key proves under the public key. -/
theorem IsSecretKey.programKey_of_proves {s : Scheme} {key : SecretKey} (h : s.IsSecretKey key)
    {sig : Signature} (hsig : key.Proves sig) : sig.programKey = aggregate key.roots :=
  calc sig.programKey
    _ = sig.recoverPublicKey :=
      (keys_eq_of_digest_lt (h.hasShape_of_proves hsig) (h.lt_of_proves hsig)).symm
    _ = aggregate key.roots := h.recoverPublicKey_of_proves hsig

/-- The verifier program accepts a signature that a key proves, and returns its digest. -/
theorem IsSecretKey.execute_of_proves {s : Scheme} {key : SecretKey} (h : s.IsSecretKey key)
    {sig : Signature} (hsig : key.Proves sig) :
    Machine.execute (Verifier.program s.digits s.depth) (aggregate key.roots) sig.witness =
      .ok sig.digest := by
  rw [execute_witness_eq_ok_iff (h.hasShape_of_proves hsig)]
  exact ⟨h.programKey_of_proves hsig, rfl⟩

/-- Every digest with a leaf for each digit is signed with the key pair of any secret, and then the
signature is verified, takes as many bytes as the parameters say and is read back from them, and the
compiled program returns the digest. -/
theorem sign_complete (s : Scheme) (secret : MasterSecret) (kp : KeyPair)
    (hkp : (s.keyPair secret).outcome = .ok kp) (digest : Bytes) (hlen : digest.length = s.digits)
    (hdigest : ∀ b ∈ digest, b.toNat < s.leafCount) :
    ∃ sig, (s.sign digest kp.secretKey).outcome = .ok sig ∧
      s.verify digest sig kp.publicKey = true ∧
      sig.toBytes.length = s.params.signatureSize.toNat ∧
      Signature.ofBytes s.params sig.toBytes = .ok sig ∧
      ∃ program, Verifier.compile s.params = .ok program ∧
        Machine.execute program kp.publicKey sig.witness = .ok digest := by
  obtain ⟨hkey, hpublic⟩ := isSecretKey_of_keyPair hkp
  obtain ⟨sig, hproves, rfl⟩ := hkey.exists_proves hlen hdigest
  have hshape := hkey.hasShape_of_proves hproves
  have hverify := hkey.verify_of_proves hproves
  have hexecute := hkey.execute_of_proves hproves
  rw [← hpublic] at hverify hexecute
  exact ⟨sig, hkey.sign_eq_ok_iff.mpr ⟨hproves, rfl⟩, hverify, length_toBytes hshape,
    ofBytes_toBytes hshape, _, Verifier.compile_params s, hexecute⟩

/-- The key pair of the zero secret in the smallest scheme signs the digit 1. -/
theorem sign_complete_smallest :
    ∃ kp sig, (smallest.keyPair ⟨FixedBytes.ofNat 32 0⟩).outcome = .ok kp ∧
      (smallest.sign [1] kp.secretKey).outcome = .ok sig ∧
      smallest.verify [1] sig kp.publicKey = true ∧ sig.toBytes.length = 37 ∧
      Signature.ofBytes smallest.params sig.toBytes = .ok sig ∧
      ∃ program, Verifier.compile smallest.params = .ok program ∧
        Machine.execute program kp.publicKey sig.witness = .ok [1] := by
  obtain ⟨kp, hkp⟩ := exists_keyPair_smallest
  have hdigest : ∀ b ∈ [(1 : UInt8)], b.toNat < smallest.leafCount :=
    List.forall_mem_singleton.mpr (by decide)
  obtain ⟨sig, hsig⟩ := sign_complete smallest _ kp hkp [1] rfl hdigest
  exact ⟨kp, sig, hkp, hsig⟩

end OneTimeSig.Scheme
