/-!
# The command line

A command line is a command with options in front of it and behind it. General options may stand on
either side, and behind the command they win; the options of a command stand behind it only. What
an option needs is checked when all arguments have been seen, so that a request for help or for the
version is granted as soon as it is met.
-/

namespace OneTimeSig.Cli

/-! ### Options and commands -/

/-- What an option says about the arguments. -/
inductive Arity where
  /-- It may be given once and has no value. -/
  | flag
  /-- It may be repeated and has no value. -/
  | counter
  /-- It may be given once, with a value. -/
  | value
deriving DecidableEq

/-- An option that a command line may contain. -/
structure Switch where
  /-- The name behind two hyphens. -/
  long : String
  /-- The letter behind one hyphen. -/
  short : Option Char
  /-- What goes with it. -/
  arity : Arity
deriving DecidableEq

namespace Switch

/-- The file with the parameters. -/
def config : Switch := ⟨"config", some 'c', .value⟩

/-- The number of digits. -/
def digits : Switch := ⟨"digits", some 'd', .value⟩

/-- The number of leaves. -/
def leaves : Switch := ⟨"leaves", some 'l', .value⟩

/-- More records. -/
def verbose : Switch := ⟨"verbose", some 'v', .counter⟩

/-- The records go to a file too. -/
def logFile : Switch := ⟨"log-file", none, .flag⟩

/-- The master secret. -/
def secret : Switch := ⟨"secret", some 's', .value⟩

/-- The message. -/
def message : Switch := ⟨"message", some 'm', .value⟩

/-- The message is the digest itself. -/
def raw : Switch := ⟨"raw", none, .flag⟩

/-- The public key. -/
def publicKey : Switch := ⟨"public-key", some 'p', .value⟩

/-- The signature. -/
def signature : Switch := ⟨"signature", some 's', .value⟩

/-- A request for help. -/
def help : Switch := ⟨"help", some 'h', .flag⟩

/-- A request for the version. -/
def version : Switch := ⟨"version", some 'V', .flag⟩

/-- The options that may stand on either side of the command. -/
def general : List Switch := [help, config, digits, leaves, verbose, logFile]

end Switch

/-- What can be asked for. -/
inductive CommandName where
  /-- A key pair. -/
  | generate
  /-- A signature. -/
  | sign
  /-- A verifier program. -/
  | script
  /-- A run of the verifier program. -/
  | verify
deriving DecidableEq

namespace CommandName

/-- The command of a word. -/
def ofWord? : String → Option CommandName
  | "generate" => some generate
  | "sign" => some sign
  | "script" => some script
  | "verify" => some verify
  | _ => none

/-- The options behind a command. -/
def switches : CommandName → List Switch
  | generate => Switch.general ++ [.secret]
  | sign => Switch.general ++ [.secret, .message, .raw]
  | script => Switch.general ++ [.publicKey]
  | verify => Switch.general ++ [.publicKey, .signature, .message, .raw]

end CommandName

/-! ### Scanning -/

/-- An option that was found, with its value unless it has none or none was found. -/
structure Occurrence where
  /-- The option. -/
  switch : Switch
  /-- Its value. -/
  value : Option String

/-- How the arguments of one side of the command end. -/
inductive Stop where
  /-- There are no more. -/
  | finished
  /-- A word stands where a command may stand. -/
  | word (word : String) (rest : List String)
  /-- Help is requested. -/
  | help
  /-- The version is requested. -/
  | version
  /-- Some argument has no meaning. -/
  | invalid

/-- The options of one side of the command, and how it ends. -/
structure Side where
  /-- The options found, in order. -/
  occurrences : List Occurrence
  /-- What ended them. -/
  stop : Stop

/-- Puts occurrences in front of a side. -/
def Side.prepend (occurrences : List Occurrence) (s : Side) : Side :=
  { s with occurrences := occurrences ++ s.occurrences }

/-- What an argument that starts with a hyphen amounts to. -/
inductive Reading where
  /-- Options that are complete, and perhaps one that takes the next argument as its value. -/
  | options (complete : List Occurrence) (waiting : Option Switch)
  /-- It ends the scan. -/
  | stop (stop : Stop)

/-- What an option without a value amounts to. -/
def Reading.ofFlag (s : Switch) : Reading :=
  if s = .help then .stop .help
  else if s = .version then .stop .version
  else .options [⟨s, none⟩] none

/-- Reads what stands behind two hyphens: a name, and perhaps a value behind an equals sign. -/
def readLong (switches : List Switch) (cs : List Char) : Reading :=
  let name := String.ofList (cs.takeWhile (· != '='))
  match switches.find? (·.long == name), cs.dropWhile (· != '=') with
  | none, _ => .stop .invalid
  | some s, [] => if s.arity = .value then .options [] (some s) else Reading.ofFlag s
  | some s, _ :: value =>
    if s.arity = .value then .options [⟨s, some (String.ofList value)⟩] none else .stop .invalid

/-- Reads the letters behind one hyphen: flags, and perhaps one option whose value follows at once,
behind an equals sign or not, or is the next argument. -/
def readShort (switches : List Switch) : List Char → Reading
  | [] => .options [] none
  | c :: rest =>
    match switches.find? (·.short == some c) with
    | none => .stop .invalid
    | some s =>
      if s.arity = .value then
        match rest with
        | [] => .options [] (some s)
        | '=' :: value => .options [⟨s, some (String.ofList value)⟩] none
        | value => .options [⟨s, some (String.ofList value)⟩] none
      else
        match Reading.ofFlag s with
        | .stop stop => .stop stop
        | .options first _ =>
          match readShort switches rest with
          | .stop stop => .stop stop
          | .options complete waiting => .options (first ++ complete) waiting

/-- Reads an argument that starts with a hyphen and is not a value. -/
def readHyphen? (switches : List Switch) (arg : String) : Option Reading :=
  match arg.toList with
  | '-' :: '-' :: cs => some (readLong switches cs)
  | '-' :: c :: cs => some (readShort switches (c :: cs))
  | _ => none

/-- The occurrence of an option that still waits for its value. -/
def lacking (waiting : Option Switch) : List Occurrence :=
  waiting.toList.map (⟨·, none⟩)

/-- Scans one side of the command, while an option may wait for its value. Two hyphens alone end the
options, and nothing may follow them. -/
def scan (switches : List Switch) : (waiting : Option Switch) → List String → Side
  | waiting, [] => ⟨lacking waiting, .finished⟩
  | waiting, arg :: rest =>
    if arg = "--" then ⟨lacking waiting, if rest.isEmpty then .finished else .invalid⟩
    else
      match readHyphen? switches arg, waiting with
      | some (.stop stop), _ => ⟨lacking waiting, stop⟩
      | some (.options complete next), _ =>
        (scan switches next rest).prepend (lacking waiting ++ complete)
      | none, some s => (scan switches none rest).prepend [⟨s, some arg⟩]
      | none, none => ⟨[], .word arg rest⟩

/-! ### Checking -/

/-- How often an option occurs. -/
def count (s : Switch) (side : List Occurrence) : Nat :=
  side.countP (·.switch == s)

/-- The value of an option. -/
def valueOf (s : Switch) (side : List Occurrence) : Option String :=
  (side.find? (·.switch == s)).bind (·.value)

/-- Whether every option that needs a value has one, and none is repeated that may not be. -/
def isComplete (side : List Occurrence) : Bool :=
  side.all fun o =>
    (o.switch.arity != .value || o.value.isSome)
      && (o.switch.arity == .counter || count o.switch side == 1)

/-- The machine word that decimal digits write, perhaps behind a plus sign. -/
def wordOf (text : String) : Option UInt64 :=
  let digits := match text.toList with
    | '+' :: cs => cs
    | cs => cs
  let n := digits.foldl (fun n c => n * 10 + (c.toNat - '0'.toNat)) 0
  if !digits.isEmpty && digits.all Char.isDigit && n < UInt64.size then some (UInt64.ofNat n) else none

/-- The number given with an option, if the option occurs. -/
def numberOf (s : Switch) (side : List Occurrence) : Option (Option UInt64) :=
  match valueOf s side with
  | none => some none
  | some text => (wordOf text).map some

/-- The general options. -/
structure Options where
  /-- The path of the configuration file. -/
  config : Option String
  /-- The number of digits. -/
  digits : Option UInt64
  /-- The number of leaves. -/
  leaves : Option UInt64
  /-- How many more levels of records are wanted. -/
  verbosity : Nat
  /-- Whether the records go to a file too. -/
  logFile : Bool
deriving DecidableEq

/-- The general options on one side of the command, if their values are well formed. -/
def Options.ofSide (side : List Occurrence) : Option Options := do
  if !isComplete side then none
  return {
    config := valueOf .config side
    digits := ← numberOf .digits side
    leaves := ← numberOf .leaves side
    verbosity := count .verbose side
    logFile := count .logFile side != 0 }

/-- The options on both sides; those behind the command win. -/
def Options.override (front behind : Options) : Options where
  config := behind.config <|> front.config
  digits := behind.digits <|> front.digits
  leaves := behind.leaves <|> front.leaves
  verbosity := if behind.verbosity = 0 then front.verbosity else behind.verbosity
  logFile := behind.logFile || front.logFile

/-- A command with what it needs. -/
inductive Command where
  /-- Makes the key pair of a master secret. -/
  | generate (secret : String)
  /-- Signs a message, or the digest that is given as one. -/
  | sign (secret message : String) (raw : Bool)
  /-- Shows the verifier program for a public key. -/
  | script (publicKey : String)
  /-- Runs the verifier program on a signature, and compares the digest with a message's. -/
  | verify (publicKey signature : String) (message : Option String) (raw : Bool)
deriving DecidableEq

/-- The command of a name, if all that it needs is given. -/
def Command.ofSide (side : List Occurrence) : CommandName → Option Command
  | .generate => do return .generate (← valueOf .secret side)
  | .sign => do
    return .sign (← valueOf .secret side) (← valueOf .message side) (count .raw side != 0)
  | .script => do return .script (← valueOf .publicKey side)
  | .verify => do
    return .verify (← valueOf .publicKey side) (← valueOf .signature side)
      (valueOf .message side) (count .raw side != 0)

/-- A command with the general options. -/
structure Invocation where
  /-- The options. -/
  options : Options
  /-- The command. -/
  command : Command
deriving DecidableEq

/-- What a command line asks for. -/
inductive Request where
  /-- A command is to be carried out. -/
  | invoke (invocation : Invocation)
  /-- Help is to be shown. -/
  | help
  /-- The version is to be shown. -/
  | version
  /-- The command line has no meaning. -/
  | invalid
deriving DecidableEq

namespace Request

/-- The request of a command with the options in front of it and the arguments behind it. -/
def ofCommand (name : CommandName) (front : List Occurrence) (args : List String) : Request :=
  let behind := scan name.switches none args
  match behind.stop with
  | .help => .help
  | .finished =>
    let invocation := do
      let command ← Command.ofSide behind.occurrences name
      let inner ← Options.ofSide behind.occurrences
      let outer ← Options.ofSide front
      return { options := outer.override inner, command : Invocation }
    match invocation with
    | some i => .invoke i
    | none => .invalid
  | _ => .invalid

/-- The request for help on a command. -/
def ofHelp : List String → Request
  | [] => .help
  | [topic] => if topic = "help" || (CommandName.ofWord? topic).isSome then .help else .invalid
  | _ => .invalid

/-- The request that the arguments make. -/
def ofArguments (args : List String) : Request :=
  let front := scan (.version :: Switch.general) none args
  match front.stop with
  | .help => .help
  | .version => .version
  | .word "help" rest => ofHelp rest
  | .word word rest =>
    match CommandName.ofWord? word with
    | some name => ofCommand name front.occurrences rest
    | none => .invalid
  | _ => .invalid

end Request

end OneTimeSig.Cli
