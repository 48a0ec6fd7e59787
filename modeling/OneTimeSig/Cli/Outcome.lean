import OneTimeSig.Cli.Run

/-!
# What a run of the program shows

A run ends with an exit code, a text on the standard output and the records of the log. An error of
the command becomes the last record and the exit code 1; a command line without meaning ends with
the exit code 2, and a log file that cannot be opened with 101.
-/

namespace OneTimeSig.Cli

/-- What a run shows. -/
structure Outcome where
  /-- The exit code. -/
  exitCode : Nat
  /-- The text on the standard output. -/
  output : String
  /-- All records, whether or not they are wanted. -/
  events : List Event

/-- What a computation shows. -/
def Outcome.ofSession (x : Session Unit) : Outcome :=
  let output := String.join (x.written.map Effect.text)
  let events := x.written.filterMap Effect.event?
  match x.outcome with
  | .ok () => ⟨0, output, events⟩
  | .error e => ⟨1, output, events ++ [.failed e]⟩

/-- The levels that are wanted: warnings and graver, and one more for each repetition. -/
def isWanted (verbosity : Nat) (level : Level) : Bool :=
  level.rank ≤ verbosity + 1

/-- The records that are wanted. -/
def Outcome.records (o : Outcome) (verbosity : Nat) : List Event :=
  o.events.filter fun e => isWanted verbosity e.level

/-- The name of the program and its version. -/
def versionText : String :=
  "lamport-script 0.1.0\n"

/-- How the program is called. -/
def helpText : String :=
  "lamport-script [OPTIONS] <COMMAND>\n\n"
    ++ "Commands:\n"
    ++ "  generate --secret <SECRET>\n"
    ++ "  sign --secret <SECRET> --message <MESSAGE> [--raw]\n"
    ++ "  script --public-key <PUBLIC_KEY>\n"
    ++ "  verify --public-key <PUBLIC_KEY> --signature <SIGNATURE> [--message <MESSAGE>] [--raw]\n\n"
    ++ "Options:\n"
    ++ "  -c, --config <CONFIG>    file with the parameters\n"
    ++ "  -d, --digits <DIGITS>    number of digits\n"
    ++ "  -l, --leaves <LEAVES>    number of leaves of each digit\n"
    ++ "  -v, --verbose            more records\n"
    ++ "      --log-file           records go to a file too\n"

/-- The directory of the log file. -/
def logDirectory : String := "logs"

/-- The path of the log file. -/
def logPath : String := logDirectory ++ "/output.log"

namespace Request

/-- Whether the request asks for a log file. -/
def wantsLogFile : Request → Bool
  | invoke i => i.options.logFile
  | _ => false

/-- How many more levels of records the request asks for. -/
def verbosity : Request → Nat
  | invoke i => i.options.verbosity
  | _ => 0

/-- What the program shows on a request. -/
def outcome (env : Environment) : Request → Outcome
  | invoke i =>
    if i.options.logFile && !env.logOpens then ⟨101, "", []⟩ else .ofSession (i.run env)
  | help => ⟨0, helpText, []⟩
  | version => ⟨0, versionText, []⟩
  | invalid => ⟨2, "", []⟩

end Request

end OneTimeSig.Cli
