import OneTimeSig.Cli.Outcome
import OneTimeSig.Proofs.HexField
import OneTimeSig.Proofs.Outcome
import OneTimeSig.Proofs.Params
import OneTimeSig.Proofs.Records

/-!
# What a command prints

A command returns when it ends with a value, and then it has printed some text (`Session.Returns`).
This is the standard output of a run that ends with the exit code 0 (`returns_iff_ofSession`). Two
steps in a row return when both do, and print one after the other (`returns_bind_iff`). A step that is
silent adds nothing, and the steps of the library and the records are silent, so what is left of a
command is the text of the lines it prints (`generate_returns_iff`, `sign_returns_iff`). A step is quiet
when it leaves nothing but records, and none of a failure among them (`Effect.IsQuiet`). Settling the
parameters is quiet, so an invocation prints what its command does (`Invocation.run_returns_iff`).
-/

namespace OneTimeSig.Cli

open Logged (writes_pure writes_monadLift writes_fail writes_write)

/-- An effect that is a record of something else than a failure. -/
def Effect.IsQuiet : Effect → Prop
  | .log event => ¬ event.isFailure
  | .print _ => False

namespace Session

variable {α β : Type}

/-- The text that a computation prints, however it ends. -/
def printed (x : Session α) : String :=
  String.join (x.written.map Effect.text)

/-- The computation ends with the value, and prints the text on the way. -/
def Returns (x : Session α) (a : α) (text : String) : Prop :=
  x.outcome = .ok a ∧ printed x = text

/-- The program returns when its exit code is 0, and prints the text on its standard output. -/
theorem returns_iff_ofSession {x : Session Unit} {text : String} :
    Returns x () text ↔
      (Outcome.ofSession x).exitCode = 0 ∧ (Outcome.ofSession x).output = text := by
  obtain ⟨written, outcome⟩ := x
  cases outcome with
  | ok _ => simp [Returns, printed, Outcome.ofSession]
  | error e => simp [Returns, Outcome.ofSession]

@[simp]
theorem printed_log (event : Event) : printed (log event) = "" := rfl

@[simp]
theorem printed_monadLift (x : Except Error α) : printed (monadLift x : Session α) = "" := rfl

/-- A computation of the library prints nothing. -/
@[simp]
theorem printed_ofLogged (x : Logged Event α) : printed (ofLogged x) = "" := by
  obtain ⟨written, outcome⟩ := x
  have hjoin : ∀ events : List Event,
      String.join ((events.map Effect.log).map Effect.text) = "" := by
    intro events
    induction events with
    | nil => rfl
    | cons event events ih =>
      rw [List.map_cons, List.map_cons, String.join_cons, ih]
      rfl
  exact hjoin written

/-- A text is printed as it is. -/
@[simp]
theorem printed_print (text : String) : printed (Logged.write (.print text)) = text := by
  change String.join [text] = text
  rw [String.join_cons, String.join_nil, String.append_empty]

/-- A line is printed with a line feed behind it. -/
@[simp]
theorem printed_printLine (line : String) : printed (printLine line) = line ++ "\n" :=
  printed_print _

/-- Two steps print one after the other, and the second only if the first returns. -/
theorem printed_bind (x : Session α) (f : α → Session β) :
    printed (x >>= f) =
      match x.outcome with
      | .ok a => printed x ++ printed (f a)
      | .error _ => printed x := by
  unfold printed
  rw [Logged.bind_def]
  cases x.outcome with
  | ok a => rw [List.map_append, String.join_append]
  | error e => rfl

/-- Two steps return when both do, and print one after the other. -/
theorem returns_bind_iff {x : Session α} {f : α → Session β} {b : β} {text : String} :
    Returns (x >>= f) b text ↔
      ∃ a front back, Returns x a front ∧ Returns (f a) b back ∧ front ++ back = text := by
  unfold Returns
  rw [Logged.outcome_bind, printed_bind]
  cases x.outcome with
  | error e => simp
  | ok a => simp

/-- A silent first step adds nothing to what is printed. -/
theorem returns_bind_iff_of_silent {x : Session α} {f : α → Session β} {b : β} {text : String}
    (hx : printed x = "") :
    Returns (x >>= f) b text ↔ ∃ a, x.outcome = .ok a ∧ Returns (f a) b text := by
  rw [returns_bind_iff]
  constructor
  · rintro ⟨a, front, back, ⟨ha, hfront⟩, hback, rfl⟩
    rw [← hfront, hx, String.empty_append]
    exact ⟨a, ha, hback⟩
  · rintro ⟨a, ha, hback⟩
    exact ⟨a, "", text, ⟨ha, hx⟩, hback, String.empty_append⟩

/-- A computation without effects in front adds nothing to what is printed. -/
@[simp]
theorem returns_lift_bind_iff {x : Except Error α} {f : α → Session β} {b : β} {text : String} :
    Returns (monadLift x >>= f) b text ↔ ∃ a, x = .ok a ∧ Returns (f a) b text :=
  returns_bind_iff_of_silent (printed_monadLift x)

/-- A computation of the library in front adds nothing to what is printed. -/
@[simp]
theorem returns_ofLogged_bind_iff {x : Logged Event α} {f : α → Session β} {b : β} {text : String} :
    Returns (ofLogged x >>= f) b text ↔ ∃ a, x.outcome = .ok a ∧ Returns (f a) b text :=
  returns_bind_iff_of_silent (printed_ofLogged x)

/-- Printing a text prints that text. -/
theorem returns_print_iff {shown text : String} :
    Returns (Logged.write (.print shown)) () text ↔ text = shown := by
  rw [Returns, printed_print, eq_comm (b := text)]
  exact and_iff_right rfl

/-- Two lines are printed one after the other. -/
theorem returns_printLines_iff {line line' : String} {text : String} :
    Returns (do printLine line; printLine line') () text ↔
      text = line ++ "\n" ++ (line' ++ "\n") := by
  have hprinted : printed (do printLine line; printLine line') =
      line ++ "\n" ++ (line' ++ "\n") := by
    rw [printed_bind, ← printed_printLine, ← printed_printLine]
    rfl
  rw [Returns, hprinted, eq_comm (b := text)]
  exact and_iff_right rfl

/-- A record in front adds nothing to what is printed. -/
@[simp]
theorem returns_log_bind_iff {event : Event} {f : Unit → Session β} {b : β} {text : String} :
    Returns (log event >>= f) b text ↔ Returns (f ()) b text := by
  rw [returns_bind_iff_of_silent (printed_log event)]
  constructor
  · rintro ⟨⟨⟩, -, h⟩
    exact h
  · exact fun h => ⟨(), rfl, h⟩

/-! ### Quiet steps -/

/-- Quiet effects print nothing. -/
theorem printed_eq_empty {x : Session α} (hx : x.Writes Effect.IsQuiet) : printed x = "" := by
  obtain ⟨written, outcome⟩ := x
  change ∀ effect ∈ written, effect.IsQuiet at hx
  change String.join (written.map Effect.text) = ""
  induction written with
  | nil => rfl
  | cons effect written ih =>
    rw [List.forall_mem_cons] at hx
    rw [List.map_cons, String.join_cons, ih hx.2]
    cases effect with
    | log event => rfl
    | print text => exact hx.1.elim

/-- The records of a computation of the library are quiet when none is one of a failure. -/
theorem quiet_ofLogged {x : Logged Event α} (hx : x.Writes (¬ Event.isFailure ·)) :
    (ofLogged x).Writes Effect.IsQuiet :=
  hx.mapWritten fun _ hevent => hevent

theorem quiet_log {event : Event} (h : ¬ event.isFailure) : (log event).Writes Effect.IsQuiet :=
  writes_write h

end Session

open Session

/-! ## Keys and signatures -/

section Scheme

variable {s : Scheme} {text : String}

/-- Key generation prints the secret and the public key of the pair. -/
theorem generate_returns_iff {secret : String} :
    Returns (generate s.params secret) () text ↔
      ∃ master pair, MasterSecret.parse secret = .ok master ∧
        (s.keyPair master).outcome = .ok pair ∧
        text = "xprv: " ++ pair.secretKey.extendedText ++ "\n" ++
          ("public key: " ++ Hex.encode pair.publicKey.toList ++ "\n") := by
  unfold generate
  simp only [returns_lift_bind_iff, returns_ofLogged_bind_iff, returns_printLines_iff,
    s.ofParams_params, Except.ok.injEq, exists_eq_left', exists_and_left]

/-- Signing prints the digest and the signature. -/
theorem sign_returns_iff {secret message : String} {raw : Bool} :
    Returns (sign s.params secret message raw) () text ↔
      ∃ master digest pair signature, MasterSecret.parse secret = .ok master ∧
        messageDigest message raw = .ok digest ∧ (s.keyPair master).outcome = .ok pair ∧
        (s.sign digest pair.secretKey).outcome = .ok signature ∧
        text = "digest: " ++ Hex.encode digest ++ "\n" ++
          ("signature: " ++ Hex.encode signature.toBytes ++ "\n") := by
  unfold sign
  simp only [returns_lift_bind_iff, returns_ofLogged_bind_iff, returns_printLines_iff,
    s.ofParams_params, Except.ok.injEq, exists_eq_left', exists_and_left]
  rfl

end Scheme

/-! ## Invocations -/

/-- An empty directory, where the log file can be opened and there is no file to read. -/
def emptyDirectory : Environment where
  logOpens := true
  readFile _ := .error "No such file or directory (os error 2)"
  tomlError _ := ""

section Invocation

variable {env : Environment} {options : Options} {p : Params} {text : String}

/-- Reading the configuration is quiet. -/
theorem quiet_baseParams (env : Environment) (config : Option String) :
    (baseParams env config).Writes Effect.IsQuiet := by
  unfold baseParams
  cases config with
  | none => exact writes_pure _
  | some path =>
    dsimp only
    cases env.readFile path with
    | error cause => exact writes_fail _
    | ok document =>
      refine (writes_monadLift _).bind fun p => ?_
      exact (quiet_log (by nofun)).bind fun _ => writes_pure p

/-- Settling the parameters is quiet. -/
theorem quiet_settleParams (env : Environment) (options : Options) :
    (settleParams env options).Writes Effect.IsQuiet := by
  unfold settleParams
  refine (quiet_baseParams env _).bind fun base => ?_
  refine (writes_monadLift _).bind fun scheme => ?_
  exact (quiet_log (by nofun)).bind fun _ => writes_pure _

/-- The parameters that a run settles on make a scheme. -/
theorem exists_scheme_of_settleParams (h : (settleParams env options).outcome = .ok p) :
    ∃ s : Scheme, s.params = p := by
  unfold settleParams at h
  rw [Logged.outcome_bind] at h
  obtain ⟨base, -, h⟩ := bind_eq_ok_iff.mp h
  rw [Logged.outcome_bind] at h
  obtain ⟨scheme, -, h⟩ := bind_eq_ok_iff.mp h
  exact ⟨scheme, Except.ok.inj h⟩

/-- An invocation prints what its command does under the settled parameters. -/
theorem Invocation.run_returns_iff {command : Command}
    (h : (settleParams env options).outcome = .ok p) :
    Returns (Invocation.run env ⟨options, command⟩) () text ↔
      Returns (command.run p) () text := by
  unfold Invocation.run
  rw [returns_bind_iff_of_silent (printed_eq_empty (quiet_settleParams _ _)), h]
  simp

/-- An invocation ends as its command does under the settled parameters. -/
theorem Invocation.outcome_run {command : Command}
    (h : (settleParams env options).outcome = .ok p) :
    (Invocation.run env ⟨options, command⟩).outcome = (command.run p).outcome := by
  unfold Invocation.run
  rw [Logged.outcome_bind, h]
  rfl

end Invocation

end OneTimeSig.Cli
