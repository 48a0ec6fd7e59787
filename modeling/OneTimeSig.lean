import OneTimeSig.Bytes
import OneTimeSig.Bytes.Hex
import OneTimeSig.Cli.Arguments
import OneTimeSig.Cli.Outcome
import OneTimeSig.Cli.Run
import OneTimeSig.Config
import OneTimeSig.Derivation.Base58
import OneTimeSig.Derivation.Node
import OneTimeSig.Derivation.Secp256k1
import OneTimeSig.Derivation.Secret
import OneTimeSig.DigitProof
import OneTimeSig.DigitTree
import OneTimeSig.Error
import OneTimeSig.Event
import OneTimeSig.Hash
import OneTimeSig.Hash.Ripemd160
import OneTimeSig.Hash.Sha256
import OneTimeSig.Hash.Sha512
import OneTimeSig.KeyPair
import OneTimeSig.Logged
import OneTimeSig.Main
import OneTimeSig.MerkleTree
import OneTimeSig.Params
import OneTimeSig.Proofs.Outcome
import OneTimeSig.Proofs.Script.Blocks
import OneTimeSig.Proofs.Script.Number
import OneTimeSig.Script.Error
import OneTimeSig.Script.Machine
import OneTimeSig.Script.Number
import OneTimeSig.Script.Opcode
import OneTimeSig.Script.Program
import OneTimeSig.Script.Verifier
import OneTimeSig.Signature
import OneTimeSig.Signing
import OneTimeSig.Text.Blank
import OneTimeSig.Text.HexField
import OneTimeSig.Text.Quoted
import OneTimeSig.Proofs.Script.Code
import OneTimeSig.Proofs.Script.Frame
import OneTimeSig.Proofs.Script.RawProof
import OneTimeSig.Proofs.Params
import OneTimeSig.Proofs.Script.Digit
import OneTimeSig.Proofs.Script.Acceptance
import OneTimeSig.Proofs.MerkleTree
import OneTimeSig.Proofs.Signature
import OneTimeSig.Proofs.Agreement
import OneTimeSig.Proofs.KeyPair
import OneTimeSig.Proofs.Completeness
import OneTimeSig.Proofs.Signing
import OneTimeSig.Proofs.Soundness
import OneTimeSig.Proofs.WireFormat
import OneTimeSig.Proofs.Endings
import OneTimeSig.Proofs.ProgramSoundness
import OneTimeSig.Proofs.DigestWidth
import OneTimeSig.Proofs.Script.Failure
import OneTimeSig.Proofs.Script.Nesting
import OneTimeSig.Proofs.Script.SignMagnitude
import OneTimeSig.Proofs.Blank
import OneTimeSig.Proofs.Hex
import OneTimeSig.Proofs.HexField
import OneTimeSig.Proofs.Cli.Session
import OneTimeSig.Proofs.Cli.Verify
import OneTimeSig.Proofs.Cli.RoundTrip
import OneTimeSig.Proofs.LevelOrder
import OneTimeSig.Proofs.RootBinding
import OneTimeSig.Proofs.AuthPath
import OneTimeSig.Proofs.SchemeDomain
import OneTimeSig.Proofs.SigningDomain
import OneTimeSig.Proofs.Script.Listing
import OneTimeSig.Proofs.DigitTree
import OneTimeSig.Proofs.KeyDerivation
import OneTimeSig.Proofs.Splicing
import OneTimeSig.Proofs.Disclosure
import OneTimeSig.Proofs.Records
import OneTimeSig.Proofs.Cli.Reporting
import OneTimeSig.Proofs.Script.Shape
