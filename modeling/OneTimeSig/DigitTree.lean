import OneTimeSig.Derivation.Node
import OneTimeSig.DigitProof

/-!
# The tree of one digit

Each digit of a digest owns a tree of derived secrets with one leaf for each value of the digit.
Signing a digit reveals the leaf of its value.
-/

namespace OneTimeSig

/-- A leaf with the secret behind it. -/
structure Leaf where
  /-- The digit that the leaf stands for. -/
  index : UInt8
  /-- The secret that is revealed with the leaf. -/
  preimage : Preimage
  /-- The node in the tree. -/
  hash : Hash160
deriving DecidableEq

namespace Leaf

/-- The leaf of an index and a preimage. -/
def commit (index : UInt8) (preimage : Preimage) : Leaf :=
  ⟨index, preimage, leafHash index preimage⟩

/-- The leaf of an index among the children of a node: the preimage is the start of the hash of the
child's private key. -/
def derive (node : Node) (index : Nat) : Except Error Leaf := do
  let child ← node.child (UInt32.ofNat index)
  let preimage := (hash160 child.secretBytes.toList).take Params.preimageSize (by decide)
  return commit (UInt8.ofNat index) preimage

end Leaf

/-- The tree of one digit with its secrets. -/
structure DigitTree where
  /-- The hash tree over the leaves. -/
  tree : MerkleTree
  /-- The leaves in order. -/
  leaves : Array Leaf
  /-- There is one for each leaf of the hash tree. -/
  size_leaves : leaves.size = tree.leafCount

namespace DigitTree

/-- The hash tree over given leaves. -/
def ofLeaves (leaves : List Leaf) : Except Error DigitTree :=
  match h : MerkleTree.ofLeaves (leaves.map Leaf.hash) with
  | .ok tree =>
    .ok {
      tree
      leaves := leaves.toArray
      size_leaves := by
        simp only [MerkleTree.ofLeaves] at h
        split at h
        next hlen => cases h; simpa [MerkleTree.leafCount] using hlen
        next => cases h }
  | .error e => .error e

/-- The tree with so many leaves below a node. -/
def derive (node : Node) (leafCount : Nat) : Except Error DigitTree := do
  if Params.maxLeafCount < leafCount then throw (.tooManyLeaves leafCount)
  let leaves ← (List.range leafCount).mapM (Leaf.derive node)
  ofLeaves leaves

/-- The root of the tree. -/
def root (t : DigitTree) : Hash160 :=
  t.tree.root

/-- The leaf of an index. -/
def leaf (t : DigitTree) (index : Fin t.tree.leafCount) : Leaf :=
  t.leaves[index.cast t.size_leaves.symm]

/-- The proof of a digit. -/
def prove (t : DigitTree) (digit : UInt8) : Except Error DigitProof := do
  let index ← t.tree.index digit.toNat
  let path ← t.tree.path index
  return { siblings := path.reverse, preimage := (t.leaf index).preimage, control := digit }

end DigitTree

end OneTimeSig
