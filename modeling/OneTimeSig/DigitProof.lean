import OneTimeSig.MerkleTree

/-!
# Proofs of one digit

A proof reveals the preimage of the leaf that a digit addresses, together with the siblings of the
nodes between that leaf and the root. Folding them from the leaf upwards recovers a root, and a
proof of an honest tree recovers the root of that tree.
-/

namespace OneTimeSig

/-- The secret behind a leaf. -/
abbrev Preimage := FixedBytes 16

/-- The leaf of an index: it commits to the index and the preimage. -/
def leafHash (index : UInt8) (preimage : Preimage) : Hash160 :=
  hash160 (index :: preimage.toList)

/-- The public key of the roots of all trees, in the order of the digits. -/
def aggregate (roots : List Hash160) : PublicKey :=
  hash256 (roots.flatMap FixedBytes.toList)

/-- The revealed part of one tree. -/
structure DigitProof where
  /-- The siblings on the path, from the root's level to the leaf's. -/
  siblings : List Hash160
  /-- The preimage of the leaf. -/
  preimage : Preimage
  /-- The index of the leaf, which is the digit that the proof is of. -/
  control : UInt8
deriving DecidableEq

namespace DigitProof

/-- Joins a node with its siblings level by level upwards. The lowest bit of `directions` tells
whether the node is the right child on its level, the next bit whether its parent is, and so on. -/
def fold : (directions : Nat) → (node : Hash160) → List Hash160 → Hash160
  | _, node, [] => node
  | directions, node, sibling :: rest =>
    fold (directions / 2)
      (if directions % 2 = 1 then MerkleTree.join sibling node else MerkleTree.join node sibling)
      rest

/-- The root that the proof leads to. -/
def recoverRoot (p : DigitProof) : Hash160 :=
  fold p.control.toNat (leafHash p.control p.preimage) p.siblings.reverse

/-- The stack items of the proof. -/
def witness (p : DigitProof) : List Bytes :=
  p.siblings.map FixedBytes.toList ++ [p.preimage.toList, [p.control]]

/-- The bytes of the proof in a signature. -/
def toBytes (p : DigitProof) : Bytes :=
  p.siblings.flatMap FixedBytes.toList ++ p.preimage.toList ++ [p.control]

end DigitProof

end OneTimeSig
