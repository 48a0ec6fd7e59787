import OneTimeSig.KeyPair
import OneTimeSig.Signature

/-!
# Signing and verifying

A digest is signed by proving each of its digits in the tree of its place. A signature is verified
without the verifier program by recovering the public key from its proofs.
-/

namespace OneTimeSig.Scheme

/-- Tests that every digit has a leaf, the first of them standing at the place `digit`. -/
def checkDigits (s : Scheme) (digit : Nat) : Bytes → Except Error Unit
  | [] => .ok ()
  | value :: rest =>
    if s.leafCount ≤ value.toNat then .error (.digitOutOfRange digit value.toNat s.leafCount)
    else checkDigits s (digit + 1) rest

/-- Tests that the digest can be signed. -/
def checkDigest (s : Scheme) (digest : Bytes) : Except Error Unit :=
  if digest.length ≠ s.digits then .error (.digestLength s.digits digest.length)
  else s.checkDigits 0 digest

/-- Proves one digit in its tree, and tests the tree and the proof. -/
def proveDigit (s : Scheme) (digit : Nat) (tree : DigitTree) (value : UInt8) :
    Except Error DigitProof := do
  if tree.leaves.size ≠ s.leafCount ∨ tree.tree.depth ≠ s.depth then
    throw (.treeShape digit tree.leaves.size s.leafCount)
  let proof ← tree.prove value
  if proof.recoverRoot ≠ tree.root then throw (.rootMismatch digit)
  return proof

/-- Proves the digits in their trees, the first of them standing at the place `digit`. -/
def proveDigits (s : Scheme) (digit : Nat) : List DigitTree → Bytes → Except Error (List DigitProof)
  | tree :: trees, value :: rest => do
    let proof ← s.proveDigit digit tree value
    let proofs ← proveDigits s (digit + 1) trees rest
    return proof :: proofs
  | _, _ => .ok []

/-- Signs a digest. -/
def sign (s : Scheme) (digest : Bytes) (key : SecretKey) : Logged Event Signature := do
  s.checkDigest digest
  if key.trees.length ≠ s.digits then Logged.fail (.treeCount key.trees.length s.digits)
  let proofs ← s.proveDigits 0 key.trees digest
  Logged.write (.signedDigest digest)
  return ⟨proofs⟩

/-- Whether the signature has the shape that the scheme gives its signatures. -/
def hasShape (s : Scheme) (signature : Signature) : Bool :=
  signature.proofs.length == s.digits
    && signature.proofs.all fun p => p.siblings.length == s.depth

/-- Whether the signature is one of the digest under the public key. -/
def verify (s : Scheme) (digest : Bytes) (signature : Signature) (publicKey : PublicKey) : Bool :=
  s.hasShape signature && signature.digest == digest && signature.recoverPublicKey == publicKey

end OneTimeSig.Scheme
