import OneTimeSig.Cli.Outcome
import Std.Time.DateTime.Timestamp

/-!
# The program

Reads the arguments, opens the log file, reads the configuration file, and shows the outcome.
-/

namespace OneTimeSig.Cli

/-- The time of day in hours, minutes and seconds. -/
def timeOfDay : IO String := do
  let now ← Std.Time.Timestamp.now
  let seconds := now.toSecondsSinceUnixEpoch.val
  let twoDigits (n : Int) : String := if n < 10 then s!"0{n}" else s!"{n}"
  return twoDigits (seconds / 3600 % 24) ++ ":" ++ twoDigits (seconds / 60 % 60) ++ ":"
    ++ twoDigits (seconds % 60)

/-- Opens the log file for more records. -/
def openLog : IO IO.FS.Handle := do
  IO.FS.createDirAll logDirectory
  IO.FS.Handle.mk logPath .append

/-- An error of the system in words and by its number, which may come negated. -/
def numbered (code : UInt32) (detail : String) : String :=
  s!"{detail.capitalize} (os error {min code (0 - code)})"

/-- The system's wording of an error. -/
def systemWording : IO.Error → String
  | .otherError code detail | .resourceBusy code detail | .resourceVanished code detail
  | .unsupportedOperation code detail | .hardwareFault code detail
  | .unsatisfiedConstraints code detail | .illegalOperation code detail
  | .protocolError code detail | .timeExpired code detail | .interrupted _ code detail
  | .noFileOrDirectory _ code detail | .alreadyExists _ code detail
  | .invalidArgument _ code detail | .permissionDenied _ code detail
  | .resourceExhausted _ code detail | .inappropriateType _ code detail
  | .noSuchThing _ code detail => numbered code detail
  | .unexpectedEof => "unexpected end of file"
  | .userError text => text

/-- The text of a file, or why it cannot be read. -/
def readText (path : String) : IO (Except String String) := do
  try
    match String.fromUTF8? (← IO.FS.readBinFile path) with
    | some text => return .ok text
    | none => return .error "stream did not contain valid UTF-8"
  catch e =>
    return .error (systemWording e)

/-- The wording for a document that is not understood. -/
def documentWording (_ : String) : String :=
  "expected integers digits and leaf_count"

/-- The path of the configuration file that a request names. -/
def Request.configPath : Request → Option String
  | invoke i => i.options.config
  | _ => none

end OneTimeSig.Cli

open OneTimeSig.Cli in
/-- Runs the program on its arguments. -/
def main (args : List String) : IO UInt32 := do
  let request := Request.ofArguments args
  let mut log : Option IO.FS.Handle := none
  let mut opens := true
  if request.wantsLogFile then
    try
      log := some (← openLog)
    catch e =>
      (← IO.getStderr).putStrLn s!"Unable to initialize the logger!\nERROR: {e}"
      opens := false
  let document ← match request.configPath with
    | some path => readText path
    | none => pure (.ok "")
  let outcome := request.outcome ⟨opens, fun _ => document, documentWording⟩
  for event in outcome.records request.verbosity do
    let record := "[" ++ (← timeOfDay) ++ "][" ++ event.level.name ++ "] " ++ event.message
    (← IO.getStderr).putStrLn record
    if let some handle := log then handle.putStrLn record
  (← IO.getStdout).putStr outcome.output
  if request = .invalid then (← IO.getStderr).putStr helpText
  return UInt32.ofNat outcome.exitCode
