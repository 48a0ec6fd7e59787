import OneTimeSig.DigitProof

/-!
# Signatures

A signature is one proof per digit. It has two written forms: the bytes of the proofs in a row,
which are read back with the parameters of the scheme, and the list of items that the verifier
program expects on its stack.
-/

namespace OneTimeSig

/-- A signature of one digest: the proofs of its digits in order. -/
structure Signature where
  /-- The proofs. -/
  proofs : List DigitProof
deriving DecidableEq

/-- The first `n` bytes and the rest, if there are so many. -/
def FixedBytes.split? (n : Nat) (bytes : Bytes) : Option (FixedBytes n × Bytes) :=
  if h : n ≤ bytes.length then some (⟨bytes.take n, by simp [h]⟩, bytes.drop n) else none

namespace DigitProof

/-- Reads so many siblings. -/
def readSiblings : (depth : Nat) → Bytes → Option (List Hash160 × Bytes)
  | 0, bytes => some ([], bytes)
  | depth + 1, bytes => do
    let (sibling, rest) ← FixedBytes.split? Params.nodeSize bytes
    let (siblings, rest) ← readSiblings depth rest
    return (sibling :: siblings, rest)

/-- Reads a proof with so many siblings. -/
def read (depth : Nat) (bytes : Bytes) : Option (DigitProof × Bytes) := do
  let (siblings, rest) ← readSiblings depth bytes
  let (preimage, rest) ← FixedBytes.split? Params.preimageSize rest
  match rest with
  | control :: rest => return ({ siblings, preimage, control }, rest)
  | [] => none

/-- Reads so many proofs and nothing behind them. -/
def readAll (depth : Nat) : (count : Nat) → Bytes → Option (List DigitProof)
  | 0, [] => some []
  | 0, _ :: _ => none
  | count + 1, bytes => do
    let (proof, rest) ← read depth bytes
    let proofs ← readAll depth count rest
    return proof :: proofs

end DigitProof

namespace Signature

/-- The digest that the signature is of. -/
def digest (s : Signature) : Bytes :=
  s.proofs.map DigitProof.control

/-- The public key that the signature leads to. -/
def recoverPublicKey (s : Signature) : PublicKey :=
  aggregate (s.proofs.map DigitProof.recoverRoot)

/-- The bytes of the signature. -/
def toBytes (s : Signature) : Bytes :=
  s.proofs.flatMap DigitProof.toBytes

/-- Reads a signature made with the parameters. -/
def ofBytes (p : Params) (bytes : Bytes) : Except Error Signature := do
  let scheme ← Scheme.ofParams p
  if bytes.length ≠ p.signatureSize.toNat then
    throw (.signatureSize p.signatureSize.toNat bytes.length)
  match DigitProof.readAll scheme.depth scheme.digits bytes with
  | some proofs => return ⟨proofs⟩
  | none => throw (.signatureSize p.signatureSize.toNat bytes.length)

/-- The items that the verifier program finds on its stack, the lowest first. -/
def witness (s : Signature) : List Bytes :=
  s.proofs.flatMap DigitProof.witness

/-- A signature is shown by its bytes. -/
instance : ToString Signature where
  toString s := Hex.encode s.toBytes

end Signature

end OneTimeSig
