import OneTimeSig.Logged
import OneTimeSig.MerkleTree

/-!
# What is worth a record

The records that the program may keep, from the gravest to the most detailed. None of them holds a
secret: they show parameters, digests, public keys and the nodes of the trees.
-/

namespace OneTimeSig

/-- How grave a record is. -/
inductive Level where
  /-- An operation failed. -/
  | error
  /-- Something may be wrong. -/
  | warning
  /-- A result. -/
  | info
  /-- A step on the way to a result. -/
  | debug
  /-- The data of a step. -/
  | trace
deriving DecidableEq

namespace Level

/-- The name of a level in a record. -/
def name : Level → String
  | error => "ERROR"
  | warning => "WARN"
  | info => "INFO"
  | debug => "DEBUG"
  | trace => "TRACE"

/-- The place of a level in the order from grave to detailed. -/
def rank : Level → Nat
  | error => 0
  | warning => 1
  | info => 2
  | debug => 3
  | trace => 4

end Level

/-- Something that happened. -/
inductive Event where
  /-- Parameters were read from a file. -/
  | loadedParams (params : Params) (path : String)
  /-- The parameters of a run are settled. -/
  | settledParams (params : Params)
  /-- A hash tree is complete. -/
  | builtTree (tree : MerkleTree)
  /-- The tree of a digit has the root. -/
  | digitRoot (digit : Nat) (root : Hash160)
  /-- A key pair is complete. -/
  | generatedKeys (params : Params) (publicKey : PublicKey)
  /-- A digest is signed. -/
  | signedDigest (digest : Bytes)
  /-- A verifier program is complete. -/
  | compiledVerifier (params : Params) (instructionCount : Nat)
  /-- A run of a program left the item. -/
  | programFinished (out : Bytes)
  /-- A run of a verifier program accepted a signature. -/
  | acceptedSignature (instructionCount : Nat)
  /-- The digest of a signature is that of the message. -/
  | digestMatches
  /-- An operation failed. -/
  | failed (cause : Error)

namespace Event

/-- The level of a record. -/
def level : Event → Level
  | failed .. => .error
  | generatedKeys .. | acceptedSignature .. => .info
  | loadedParams .. | settledParams .. | signedDigest .. | compiledVerifier .. | digestMatches =>
    .debug
  | builtTree .. | digitRoot .. | programFinished .. => .trace

/-- The text of a record. -/
def message : Event → String
  | loadedParams params path => s!"Loaded {params} from '{path}'."
  | settledParams params => s!"Running with {params}."
  | builtTree tree => toString tree
  | digitRoot digit root => s!"digit {digit}: root " ++ Hex.encode root.toList
  | generatedKeys params publicKey =>
    s!"Generated a key pair ({params.digits} digits, {params.leafCount} leaves): "
      ++ Hex.encode publicKey.toList
  | signedDigest digest => "Signed digest " ++ Hex.encode digest ++ "."
  | compiledVerifier params instructionCount =>
    s!"Compiled the verifier for {params.digits} digits of depth {params.depth}: "
      ++ s!"{instructionCount} instructions."
  | programFinished out => "The program finished with " ++ Hex.encode out ++ "."
  | acceptedSignature instructionCount =>
    s!"The program accepted the signature after {instructionCount} instructions."
  | digestMatches => "The digest matches the message."
  | failed cause => cause.message

end Event

end OneTimeSig
