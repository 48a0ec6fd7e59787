import OneTimeSig.Cli.Arguments
import OneTimeSig.Config
import OneTimeSig.Script.Machine
import OneTimeSig.Script.Verifier
import OneTimeSig.Signing

/-!
# Carrying out a command

A command keeps records and prints lines as it goes, and both are effects of one computation. Each
command prints only when nothing can fail any more, so a command that fails prints nothing.
-/

namespace OneTimeSig.Cli

/-- What a command leaves behind on its way. -/
inductive Effect where
  /-- A record for the log. -/
  | log (event : Event)
  /-- Text for the standard output. -/
  | print (text : String)

namespace Effect

/-- The record of an effect. -/
def event? : Effect → Option Event
  | log event => some event
  | print _ => none

/-- The text that an effect prints. -/
def text : Effect → String
  | log _ => ""
  | print text => text

end Effect

/-- A computation of the command line. -/
abbrev Session := Logged Effect

namespace Session

/-- Keeps a record. -/
def log (event : Event) : Session Unit :=
  Logged.write (.log event)

/-- Prints a line. -/
def printLine (line : String) : Session Unit :=
  Logged.write (.print (line ++ "\n"))

/-- A computation of the library, whose records go to the log. -/
def ofLogged {α : Type} (x : Logged Event α) : Session α :=
  x.mapWritten .log

end Session

open Session

/-- The digest of a message in hexadecimal: the message itself when it is raw. -/
def messageDigest (message : String) (raw : Bool) : Except Error Bytes := do
  let bytes ← HexField.read "message" message
  return if raw then bytes else (envelope bytes).toList

/-- Makes the key pair of a master secret. -/
def generate (p : Params) (secret : String) : Session Unit := do
  let secret ← MasterSecret.parse secret
  let scheme ← Scheme.ofParams p
  let pair ← ofLogged (scheme.keyPair secret)
  printLine ("xprv: " ++ pair.secretKey.extendedText)
  printLine ("public key: " ++ Hex.encode pair.publicKey.toList)

/-- Signs a message. -/
def sign (p : Params) (secret message : String) (raw : Bool) : Session Unit := do
  let secret ← MasterSecret.parse secret
  let digest ← messageDigest message raw
  let scheme ← Scheme.ofParams p
  let pair ← ofLogged (scheme.keyPair secret)
  let signature ← ofLogged (scheme.sign digest pair.secretKey)
  printLine ("digest: " ++ Hex.encode digest)
  printLine ("signature: " ++ toString signature)

/-- Compiles the verifier program. -/
def compile (p : Params) : Session Script.Program := do
  let program ← Script.Verifier.compile p
  log (.compiledVerifier p program.instructions.length)
  return program

/-- Shows the verifier program for a public key. -/
def script (p : Params) (publicKey : String) : Session Unit := do
  let publicKey ← HexField.readFixed 32 "public key" publicKey
  let program ← compile p
  Logged.write (.print (program.listing publicKey))

/-- Runs a program on a witness. -/
def execute (program : Script.Program) (publicKey : PublicKey) (witness : List Bytes) :
    Session Bytes := do
  match Script.Machine.execute program publicKey witness with
  | .ok out =>
    log (.programFinished out)
    return out
  | .error cause => Logged.fail (.script cause)

/-- Compares the digest of a signature with that of a message, if there is one. -/
def compareDigest (digest : Bytes) (message : Option String) (raw : Bool) : Session Unit := do
  if let some message := message then
    let expected ← messageDigest message raw
    if expected ≠ digest then Logged.fail (.otherDigest digest expected)
    log .digestMatches

/-- Runs the verifier program on a signature. -/
def verify (p : Params) (publicKey signature : String) (message : Option String) (raw : Bool) :
    Session Unit := do
  let publicKey ← HexField.readFixed 32 "public key" publicKey
  let bytes ← HexField.read "signature" signature
  let signature ← Signature.ofBytes p bytes
  let program ← compile p
  let digest ← execute program publicKey signature.witness
  log (.acceptedSignature program.instructions.length)
  compareDigest digest message raw
  printLine ("digest: " ++ Hex.encode digest)

/-- What a run finds around it. -/
structure Environment where
  /-- Whether the log file can be opened. -/
  logOpens : Bool
  /-- The text of the file at a path, or the system's wording of why it cannot be read. -/
  readFile : String → Except String String
  /-- The TOML reader's wording of what is wrong with a document that it does not understand. -/
  tomlError : String → String

/-- The parameters of the configuration file, or the canonical ones. -/
def baseParams (env : Environment) (config : Option String) : Session Params := do
  match config with
  | none => return .canonical
  | some path =>
    match env.readFile path with
    | .error cause => Logged.fail (.unreadableConfig path cause)
    | .ok document =>
      let p ← Config.read env.tomlError document
      log (.loadedParams p path)
      return p

/-- The parameters of a run: the options change those of the configuration. -/
def settleParams (env : Environment) (options : Options) : Session Params := do
  let base ← baseParams env options.config
  let p : Params := ⟨options.digits.getD base.digits, options.leaves.getD base.leafCount⟩
  let scheme ← Scheme.ofParams p
  log (.settledParams scheme.params)
  return scheme.params

/-- Carries out a command. -/
def Command.run (p : Params) : Command → Session Unit
  | .generate secret => Cli.generate p secret
  | .sign secret message raw => Cli.sign p secret message raw
  | .script publicKey => Cli.script p publicKey
  | .verify publicKey signature message raw => Cli.verify p publicKey signature message raw

/-- Carries out an invocation. -/
def Invocation.run (env : Environment) (i : Invocation) : Session Unit := do
  let p ← settleParams env i.options
  i.command.run p

end OneTimeSig.Cli
