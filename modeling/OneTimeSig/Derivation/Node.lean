import OneTimeSig.Derivation.Base58
import OneTimeSig.Derivation.Secp256k1
import OneTimeSig.Derivation.Secret
import OneTimeSig.Hash.Sha512

/-!
# The tree of derived keys

The hierarchical key derivation of BIP-32, restricted to hardened children: the key of a child
follows from its parent's private key, and from nothing public.
-/

namespace OneTimeSig

open Secp256k1 (Scalar)

/-- An extended private key. -/
structure Node where
  /-- The private key. -/
  key : Scalar
  /-- The entropy that the children are derived with. -/
  chainCode : FixedBytes 32
  /-- The distance from the master node. -/
  depth : UInt8
  /-- The private key of the parent; the master node has none. -/
  parent : Option Scalar
  /-- The number of this node among the children of its parent. -/
  number : UInt32
deriving DecidableEq

namespace Node

/-- The numbers of hardened children have this bit set. -/
def hardenedBit : UInt32 := 0x80000000

/-- The two halves of a keyed hash: the key material and the chain code. -/
def split (hash : FixedBytes 64) : Nat × FixedBytes 32 :=
  (bigEndianValue (hash.toList.take 32), ⟨hash.toList.drop 32, by simp⟩)

/-- The number as a private key. -/
def scalar (key : Option Scalar) : Except Error Scalar :=
  match key with
  | some k => .ok k
  | none => .error .invalidKey

/-- The key under which the master secret is hashed. -/
def seedKey : Bytes := Text.utf8 "Bitcoin seed".toList

/-- The node of the master secret. -/
def master (secret : MasterSecret) : Except Error Node := do
  let (material, chainCode) := split (Sha512.hmac seedKey secret.bytes.toList)
  let key ← scalar (Scalar.ofNat? material)
  return { key, chainCode, depth := 0, parent := none, number := 0 }

/-- The hardened child of an index below 2³¹. -/
def child (node : Node) (index : UInt32) : Except Error Node := do
  if hardenedBit ≤ index then throw (.hardenedIndex index.toNat)
  if node.depth = 255 then throw .derivationTooDeep
  let number := index ||| hardenedBit
  let data := 0x00 :: node.key.bytes.toList ++ bigEndian 4 number.toNat
  let (material, chainCode) := split (Sha512.hmac node.chainCode.toList data)
  let tweak ← scalar (Scalar.ofNat? material)
  let key ← scalar (node.key.add? tweak)
  return { key, chainCode, depth := node.depth + 1, parent := some node.key, number }

/-- The private key as bytes. -/
def secretBytes (node : Node) : FixedBytes 32 :=
  node.key.bytes

/-- The four bytes that name the parent: the start of its public key's hash, or zeros. -/
def parentFingerprint (node : Node) : Bytes :=
  match node.parent with
  | none => [0, 0, 0, 0]
  | some key => (hash160 key.point.compressed).toList.take 4

/-- The text form of the extended private key. -/
def extendedText (node : Node) : String :=
  Base58.encodeChecked
    ([0x04, 0x88, 0xad, 0xe4] ++ [node.depth] ++ node.parentFingerprint
      ++ bigEndian 4 node.number.toNat ++ node.chainCode.toList ++ 0x00 :: node.key.bytes.toList)

end Node

end OneTimeSig
