import OneTimeSig.DigitTree
import OneTimeSig.Event

/-!
# Key pairs

A key pair is derived from the master secret: one node below the master node is reserved for
signing keys, its children are the nodes of the digits, and theirs are the leaves. The public key
commits to the roots of all trees. A key pair signs one digest only, since each signature reveals a
part of the secret key.
-/

namespace OneTimeSig

/-- The secret half of a key pair. -/
structure SecretKey where
  /-- The trees of the digits in order. -/
  trees : List DigitTree
  /-- The text form of the master node. -/
  extendedText : String

/-- A secret key shows the number of its trees and nothing else. -/
instance : ToString SecretKey where
  toString key := s!"LamportSecretKey \x7b trees: {key.trees.length}, .. \x7d"

/-- The roots of the trees. -/
def SecretKey.roots (key : SecretKey) : List Hash160 :=
  key.trees.map DigitTree.root

/-- A secret key with the public key that belongs to it. -/
structure KeyPair where
  /-- The key that signs. -/
  secretKey : SecretKey
  /-- The key that verifies. -/
  publicKey : PublicKey

namespace Scheme

/-- The number of the child of the master node below which signing keys are derived. -/
def keyNamespace : UInt32 := 69420

/-- Derives the tree of a digit below the node of the signing keys. -/
def deriveTree (s : Scheme) (keys : Node) (digit : Nat) : Logged Event DigitTree := do
  let node ← keys.child (UInt32.ofNat digit)
  let tree ← DigitTree.derive node s.leafCount
  Logged.write (.builtTree tree.tree)
  Logged.write (.digitRoot digit tree.root)
  return tree

/-- Derives the key pair of a master secret. -/
def keyPair (s : Scheme) (secret : MasterSecret) : Logged Event KeyPair := do
  let master ← Node.master secret
  let keys ← master.child keyNamespace
  let trees ← (List.range s.digits).mapM (s.deriveTree keys)
  let secretKey := { trees, extendedText := master.extendedText : SecretKey }
  let publicKey := aggregate secretKey.roots
  Logged.write (.generatedKeys s.params publicKey)
  return { secretKey, publicKey }

end Scheme

end OneTimeSig
