import OneTimeSig.Error

/-!
# The parameters of a scheme

A scheme signs digests of a fixed number of bytes, called digits, and has one hash tree per digit
with one leaf for each value that the digit may take. The two numbers are machine words as given by
a user; `check` says which pairs make a scheme, and `Scheme` is a pair that passed. The order of
the tests matters: the sizes are only meaningful once the number of leaves is known to be a power
of two, and the last test is what keeps the product in `signatureSize` from wrapping.
-/

namespace OneTimeSig

/-- Whether the number is a power of two. -/
def isPowerOfTwo (n : Nat) : Bool :=
  n == 1 <<< n.log2

/-- How many of the lowest `width` bits are zero below the first that is not. -/
def trailingZeros : (width : Nat) → (n : Nat) → Nat
  | 0, _ => 0
  | width + 1, n => if n % 2 = 1 then 0 else trailingZeros width (n / 2) + 1

/-- The two numbers that the key generator, the signer and the verifier program agree on. -/
structure Params where
  /-- The number of digits, which is the number of bytes of a digest. -/
  digits : UInt64
  /-- The number of leaves of each digit's tree. -/
  leafCount : UInt64
deriving DecidableEq

instance : ToString Params where
  toString p := s!"SchemeParams \x7b digits: {p.digits}, leaf_count: {p.leafCount} \x7d"

namespace Params

/-- The parameters that hold where nothing else is said: digests of 20 bytes of any value. -/
def canonical : Params := ⟨20, 256⟩

/-- The largest number of leaves that one byte can address. -/
def maxLeafCount : Nat := 256

/-- The width of a node of a tree. -/
def nodeSize : Nat := 20

/-- The width of a leaf's preimage. -/
def preimageSize : Nat := 16

/-- The number of levels between the leaves and the root of each tree. -/
def depth (p : Params) : Nat :=
  trailingZeros 64 p.leafCount.toNat

/-- The number of bytes that one digit takes in a signature: a path, a preimage and the digit. -/
def proofSize (p : Params) : Nat :=
  p.depth * nodeSize + preimageSize + 1

/-- The number of bytes of a signature. -/
def signatureSize (p : Params) : UInt64 :=
  p.digits * UInt64.ofNat p.proofSize

/-- Tests whether the parameters make a scheme. -/
def check (p : Params) : Except Error Unit :=
  let leaves := p.leafCount.toNat
  if p.digits = 0 then .error .noDigits
  else if !isPowerOfTwo leaves || leaves < 2 then .error (.leafCountShape leaves)
  else if maxLeafCount < leaves then .error (.leafCountTooLarge leaves)
  else if UInt64.size ≤ p.digits.toNat * p.proofSize then .error (.tooManyDigits p.digits.toNat)
  else .ok ()

end Params

/-- Parameters that make a scheme. -/
structure Scheme where
  /-- The parameters. -/
  params : Params
  /-- They pass the test. -/
  checked : params.check = .ok ()

namespace Scheme

/-- The scheme of the parameters, if they make one. -/
def ofParams (p : Params) : Except Error Scheme :=
  match h : p.check with
  | .ok () => .ok ⟨p, h⟩
  | .error e => .error e

/-- The number of digits. -/
def digits (s : Scheme) : Nat :=
  s.params.digits.toNat

/-- The number of leaves of each tree. -/
def leafCount (s : Scheme) : Nat :=
  s.params.leafCount.toNat

/-- The number of levels below the root of each tree. -/
def depth (s : Scheme) : Nat :=
  s.params.depth

end Scheme

end OneTimeSig
