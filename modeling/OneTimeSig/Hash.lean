import OneTimeSig.Hash.Ripemd160
import OneTimeSig.Hash.Sha256

/-!
# The hashes of the scheme

Two compositions of standard hash functions carry the whole scheme. `hash160` makes leaves, inner
nodes and message digests, `hash256` makes public keys; the stack machine has an instruction for
each. Both results have a fixed width, and nothing else is used of them.
-/

namespace OneTimeSig

/-- A node of a hash tree. -/
abbrev Hash160 := FixedBytes 20

/-- A public key: the hash of all tree roots. -/
abbrev PublicKey := FixedBytes 32

/-- RIPEMD-160 of SHA-256. -/
def hash160 (data : Bytes) : Hash160 :=
  Ripemd160.hash (Sha256.hash data).toList

/-- SHA-256 applied twice. -/
def hash256 (data : Bytes) : PublicKey :=
  Sha256.hash (Sha256.hash data).toList

/-- The digest that is signed in place of a message of any length. -/
def envelope (message : Bytes) : Hash160 :=
  hash160 message

end OneTimeSig
