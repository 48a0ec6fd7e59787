import OneTimeSig.Bytes.Hex
import OneTimeSig.Script.Error

/-!
# Why an operation of the scheme fails

Each cause is a constructor of `Error` with the values that its message mentions. The causes fall
into six kinds, and the kind's introduction stands in front of every message.
-/

namespace OneTimeSig

/-- What a failure is about. -/
inductive ErrorKind where
  /-- A value does not have the encoding or the length that it must have. -/
  | format
  /-- A tree does not have the shape that it has by construction. -/
  | structuralInvariant
  /-- The input is well formed, and cannot be used for what was asked. -/
  | precondition
  /-- A key cannot be derived. -/
  | derivation
  /-- The configuration file cannot be read. -/
  | config
  /-- The verifier program rejects its witness. -/
  | script
deriving DecidableEq, Repr

/-- What stands in front of the messages of a kind. -/
def ErrorKind.introduction : ErrorKind → String
  | format => "format error"
  | structuralInvariant => "structural invariant violated"
  | precondition => "precondition failed"
  | derivation => "key derivation failed"
  | config => "invalid configuration"
  | script => "verifier program failed"

/-- Why an operation fails. -/
inductive Error where
  /-- The text of the named value is not hexadecimal. -/
  | notHex (what : String) (cause : Hex.Error)
  /-- The named value has the wrong number of bytes. -/
  | wrongSize (what : String) (expected actual : Nat)
  /-- A signature has the wrong number of bytes. -/
  | signatureSize (expected actual : Nat)
  /-- A scheme without digits. -/
  | noDigits
  /-- A digit tree with a number of leaves that is no power of two above one. -/
  | leafCountShape (leafCount : Nat)
  /-- A digit tree with more leaves than one byte can address. -/
  | leafCountTooLarge (leafCount : Nat)
  /-- A signature whose size does not fit a machine word. -/
  | tooManyDigits (digits : Nat)
  /-- A digit tree too deep for a control byte. -/
  | treeTooDeep (depth limit : Nat)
  /-- More leaves asked for than one byte can index. -/
  | tooManyLeaves (leafCount : Nat)
  /-- A number of leaves that no balanced tree has. -/
  | unbalancedTree (leafCount : Nat)
  /-- A leaf that the tree does not have. -/
  | leafOutOfRange (index leafCount : Nat)
  /-- An authentication path with the wrong number of nodes. -/
  | pathLength (actual expected : Nat)
  /-- A digest with the wrong number of bytes. -/
  | digestLength (expected actual : Nat)
  /-- A digit of the digest that addresses no leaf. -/
  | digitOutOfRange (digit value leafCount : Nat)
  /-- A secret key with the wrong number of trees. -/
  | treeCount (actual expected : Nat)
  /-- A tree of the secret key with the wrong number of leaves. -/
  | treeShape (digit actual expected : Nat)
  /-- A proof that does not lead to the root of its tree. -/
  | rootMismatch (digit : Nat)
  /-- A signature of another digest than the message's. -/
  | otherDigest (signed expected : Bytes)
  /-- An index that no hardened child has. -/
  | hardenedIndex (index : Nat)
  /-- A node below the deepest level. -/
  | derivationTooDeep
  /-- A key that the curve does not admit. -/
  | invalidKey
  /-- A configuration file that cannot be read; `cause` is the system's wording. -/
  | unreadableConfig (path cause : String)
  /-- A configuration whose text is not understood; `cause` is the TOML reader's wording. -/
  | malformedConfig (cause : String)
  /-- A run of the verifier program that fails. -/
  | script (cause : Script.Error)
deriving DecidableEq

namespace Error

/-- The kind that a cause belongs to. -/
def kind : Error → ErrorKind
  | notHex .. | wrongSize .. | signatureSize .. => .format
  | leafCountShape .. | unbalancedTree .. | pathLength .. | rootMismatch .. => .structuralInvariant
  | noDigits | leafCountTooLarge .. | tooManyDigits .. | treeTooDeep .. | tooManyLeaves ..
  | leafOutOfRange .. | digestLength .. | digitOutOfRange .. | treeCount .. | treeShape ..
  | otherDigest .. => .precondition
  | hardenedIndex .. | derivationTooDeep | invalidKey => .derivation
  | unreadableConfig .. | malformedConfig .. => .config
  | script .. => .script

/-- The wording of a cause, without the introduction of its kind. -/
def detail : Error → String
  | notHex what cause => s!"{what} is not valid hex: " ++ cause.message
  | wrongSize what expected actual =>
    s!"{what} must be {expected} bytes " ++ s!"({2 * expected} hex characters), got {actual} bytes"
  | signatureSize expected actual => s!"signature must be {expected} bytes, got {actual}"
  | noDigits => "the number of digits must be positive"
  | leafCountShape leafCount =>
    s!"the leaf count {leafCount} is not a power of two greater than one"
  | leafCountTooLarge leafCount =>
    s!"the leaf count {leafCount} cannot be addressed by a single control byte"
  | tooManyDigits digits => s!"{digits} digits do not fit a signature"
  | treeTooDeep depth limit => s!"tree depth {depth} exceeds {limit}"
  | tooManyLeaves leafCount => s!"{leafCount} leaves cannot be indexed by one byte"
  | unbalancedTree leafCount => s!"number of leaves ({leafCount}) is not a power of 2"
  | leafOutOfRange index leafCount => s!"leaf index {index} out of range for {leafCount} leaves"
  | pathLength actual expected =>
    s!"authentication path has {actual} nodes, expected {expected}"
  | digestLength expected actual => s!"digest must be {expected} bytes, got {actual}"
  | digitOutOfRange digit value leafCount =>
    s!"digit {digit} has value {value}, the trees only have {leafCount} leaves"
  | treeCount actual expected =>
    s!"secret key has {actual} digit trees, the scheme expects {expected}"
  | treeShape digit actual expected =>
    s!"digit tree {digit} has {actual} leaves, the scheme expects {expected}"
  | rootMismatch digit => s!"the proof of digit {digit} does not reproduce its root"
  | otherDigest signed expected =>
    "the signature authenticates " ++ Hex.encode signed ++ ", not " ++ Hex.encode expected
  | hardenedIndex index => s!"invalid hardened index {index}: invalid child number"
  | derivationTooDeep => "maximum derivation depth exceeded"
  | invalidKey => "cryptographic error"
  | unreadableConfig path cause => s!"failed to read '{path}': {cause}"
  | malformedConfig cause => cause
  | script cause => cause.message

/-- The whole message: the introduction of the kind and the wording of the cause. -/
def message (e : Error) : String :=
  e.kind.introduction ++ ": " ++ e.detail

end Error

end OneTimeSig
