import OneTimeSig.Proofs.Cli.Verify
import OneTimeSig.Proofs.KeyPair
import OneTimeSig.Proofs.Records
import OneTimeSig.Proofs.Script.Listing

/-!
# A run prints everything or nothing

A command is orderly (`Session.Orderly`): it writes no record of a failure, and prints nothing when it
fails. A step is quiet when it leaves nothing but records of something else than a failure
(`Effect.IsQuiet`), and quiet steps in front keep a computation orderly (`Orderly.of_bind`). All steps
of a command but the printing at the end are quiet, so every command is orderly
(`orderly_command`), and so is every invocation.

A command that returns prints its lines, and `Shows` says for each command which lines these are and
when (`Command.returns_iff`). None of them contains a line feed, so they can be told apart in what is
printed (`Shows.lineFeed_notMem`).

The configuration file is the one input that others judge: the system says why it cannot be read, and
the TOML reader what is wrong with its text. Both are taken as they are (`Environment.ConfigFault`).

`Request.outcome_invoke` puts this together. A run that fails prints nothing, ends with the exit code
1 and keeps one record of a failure, with the message of its error, and this is the fault of the
configuration file if there is one. A run that returns keeps none, ends with the exit code 0 and
prints the lines of its command.
-/

namespace OneTimeSig.Cli

open Logged (writes_pure writes_monadLift writes_fail)
open Script

/-! ## Orderly computations -/

namespace Session

variable {α β : Type}

/-- A computation that reports no failure itself, and prints only if it does not fail. -/
structure Orderly (x : Session α) : Prop where
  /-- No record that it writes is one of a failure. -/
  noFailure : ∀ event ∈ x.written.filterMap Effect.event?, ¬ event.isFailure
  /-- When it fails, it has printed nothing. -/
  printsLast : ∀ e, x.outcome = .error e → printed x = ""

/-- The records among quiet effects are not those of failures. -/
theorem noFailure_of_quiet {written : List Effect} (h : ∀ effect ∈ written, effect.IsQuiet) :
    ∀ event ∈ written.filterMap Effect.event?, ¬ event.isFailure := by
  intro event hevent
  obtain ⟨effect, heffect, hsome⟩ := List.mem_filterMap.mp hevent
  have hquiet := h effect heffect
  cases effect with
  | log event' =>
    obtain rfl := Option.some.inj hsome
    exact hquiet
  | print text => nomatch hsome

/-- A computation behind a quiet step is orderly when it is so by itself. -/
theorem Orderly.of_bind {x : Session α} {f : α → Session β} (hx : x.Writes Effect.IsQuiet)
    (hf : ∀ a, (f a).Orderly) : (x >>= f).Orderly := by
  have hfront := noFailure_of_quiet hx
  constructor
  · rw [Logged.bind_def]
    cases x.outcome with
    | error e => exact hfront
    | ok a =>
      rw [List.filterMap_append, List.forall_mem_append]
      exact ⟨hfront, (hf a).noFailure⟩
  · intro e he
    rw [Logged.outcome_bind] at he
    rw [printed_bind, printed_eq_empty hx]
    cases hx' : x.outcome with
    | error e' => rfl
    | ok a =>
      rw [hx'] at he
      dsimp only
      rw [(hf a).printsLast e he, String.empty_append]

/-- Printing never fails. -/
theorem orderly_print (text : String) : Orderly (Logged.write (.print text)) :=
  ⟨List.forall_mem_nil _, nofun⟩

/-- Printing two lines never fails. -/
theorem orderly_printLines (line line' : String) :
    Orderly (do printLine line; printLine line') :=
  ⟨List.forall_mem_nil _, nofun⟩

end Session

open Session

/-! ## The commands are orderly -/

theorem quiet_compile (p : Params) : (compile p).Writes Effect.IsQuiet := by
  unfold compile
  refine (writes_monadLift _).bind fun program => ?_
  exact (quiet_log (by nofun)).bind fun _ => writes_pure program

theorem quiet_execute (program : Script.Program) (pk : PublicKey) (witness : List Bytes) :
    (execute program pk witness).Writes Effect.IsQuiet := by
  unfold execute
  split
  · exact (quiet_log (by nofun)).bind fun _ => writes_pure _
  · exact writes_fail _

/-- Every command is orderly: nothing that can fail stands behind what it prints. -/
theorem orderly_command (p : Params) (command : Command) : (command.run p).Orderly := by
  cases command with
  | generate secret =>
    refine .of_bind (writes_monadLift _) fun master => ?_
    refine .of_bind (writes_monadLift _) fun scheme => ?_
    refine .of_bind (quiet_ofLogged (scheme.writes_keyPair master)) fun pair => ?_
    exact orderly_printLines _ _
  | sign secret message raw =>
    refine .of_bind (writes_monadLift _) fun master => ?_
    refine .of_bind (writes_monadLift _) fun digest => ?_
    refine .of_bind (writes_monadLift _) fun scheme => ?_
    refine .of_bind (quiet_ofLogged (scheme.writes_keyPair master)) fun pair => ?_
    refine .of_bind (quiet_ofLogged (scheme.writes_sign digest pair.secretKey)) fun signature => ?_
    exact orderly_printLines _ _
  | script publicKey =>
    refine .of_bind (writes_monadLift _) fun pk => ?_
    refine .of_bind (quiet_compile p) fun program => ?_
    exact orderly_print _
  | verify publicKey signature message raw =>
    refine .of_bind (writes_monadLift _) fun pk => ?_
    refine .of_bind (writes_monadLift _) fun bytes => ?_
    refine .of_bind (writes_monadLift _) fun signature => ?_
    refine .of_bind (quiet_compile p) fun program => ?_
    refine .of_bind (quiet_execute program pk _) fun digest => ?_
    refine .of_bind (quiet_log (by nofun)) fun _ => ?_
    refine .of_bind (quiet_compareDigest digest message raw) fun _ => ?_
    exact orderly_print _

theorem orderly_invocation (env : Environment) (i : Invocation) : (i.run env).Orderly :=
  .of_bind (quiet_settleParams env i.options) fun p => orderly_command p i.command

/-! ## What a command prints -/

/-- No digit in base 58 is a line feed. -/
theorem lineFeed_notMem_digits (n : Nat) {rest : List Char} (h : '\n' ∉ rest) :
    '\n' ∉ Base58.digits n rest := by
  have hdigit : ∀ k < 58, Base58.alphabet.getD k '1' ≠ '\n' := by decide
  induction n, rest using Base58.digits.induct with
  | case1 rest =>
    rw [Base58.digits, if_pos rfl]
    exact h
  | case2 n rest hn ih =>
    rw [Base58.digits, if_neg hn]
    refine ih ?_
    rw [List.mem_cons, not_or]
    exact ⟨(hdigit _ (Nat.mod_lt n (by decide))).symm, h⟩

/-- The text form of an extended private key is a part of one line. -/
theorem lineFeed_notMem_extendedText (node : Node) : '\n' ∉ node.extendedText.toList := by
  unfold Node.extendedText Base58.encodeChecked Base58.encode
  rw [String.toList_ofList, List.mem_append, not_or]
  refine ⟨fun hmem => ?_, lineFeed_notMem_digits _ List.not_mem_nil⟩
  obtain ⟨_, -, hone⟩ := List.mem_map.mp hmem
  exact absurd hone (by decide)

/-- The lines that a command prints under a scheme, when it does not fail. -/
inductive Shows (s : Scheme) : Command → List String → Prop
  /-- A key pair is shown by the text of its master node and by the public key. -/
  | generate {secret : String} {master : MasterSecret} {pair : KeyPair}
    (hmaster : MasterSecret.parse secret = .ok master)
    (hpair : (s.keyPair master).outcome = .ok pair) :
    Shows s (.generate secret)
      ["xprv: " ++ pair.secretKey.extendedText, "public key: " ++ Hex.encode pair.publicKey.toList]
  /-- A signature is shown behind the digest that it is one of. -/
  | sign {secret message : String} {raw : Bool} {master : MasterSecret} {digest : Bytes}
    {pair : KeyPair} {signature : Signature}
    (hmaster : MasterSecret.parse secret = .ok master)
    (hdigest : messageDigest message raw = .ok digest)
    (hpair : (s.keyPair master).outcome = .ok pair)
    (hsignature : (s.sign digest pair.secretKey).outcome = .ok signature) :
    Shows s (.sign secret message raw)
      ["digest: " ++ Hex.encode digest, "signature: " ++ Hex.encode signature.toBytes]
  /-- The verifier program is shown line by line, with the public key filled in. -/
  | script {publicKey : String} {pk : PublicKey}
    (hpk : HexField.readFixed 32 "public key" publicKey = .ok pk) :
    Shows s (.script publicKey) ((Verifier.program s.digits s.depth).map (Line.text pk))
  /-- Of an accepted signature the digest is shown, which is that of the message if there is one. -/
  | verify {publicKey signature : String} {message : Option String} {raw : Bool} {sig : Signature}
    (hshape : s.hasShape sig = true)
    (hpk : HexField.readFixed 32 "public key" publicKey = .ok sig.programKey)
    (hsignature : HexField.read "signature" signature = .ok sig.toBytes)
    (hmessage : ∀ m ∈ message, messageDigest m raw = .ok sig.digest) :
    Shows s (.verify publicKey signature message raw) ["digest: " ++ Hex.encode sig.digest]

section Lines

variable {s : Scheme} {text : String}

/-- Showing the program prints its listing under the public key. -/
theorem script_returns_iff {publicKey : String} :
    Returns (Cli.script s.params publicKey) () text ↔
      ∃ pk, HexField.readFixed 32 "public key" publicKey = .ok pk ∧
        text = (Verifier.program s.digits s.depth).listing pk := by
  unfold Cli.script
  simp only [returns_lift_bind_iff, returns_compile_bind_iff, Verifier.compile_params,
    Except.ok.injEq, exists_eq_left', returns_print_iff]

theorem unlines_singleton (line : String) : unlines [line] = line ++ "\n" := by
  simp [unlines]

theorem unlines_pair (line line' : String) :
    unlines [line, line'] = line ++ "\n" ++ (line' ++ "\n") := by
  simp [unlines]

/-- A command returns exactly when there are lines for it to show, and it prints these. -/
theorem Command.returns_iff {command : Command} :
    Returns (command.run s.params) () text ↔
      ∃ lines, Shows s command lines ∧ text = unlines lines := by
  cases command with
  | generate secret =>
    refine generate_returns_iff.trans ⟨?_, ?_⟩
    · rintro ⟨master, pair, hmaster, hpair, rfl⟩
      exact ⟨_, .generate hmaster hpair, (unlines_pair _ _).symm⟩
    · rintro ⟨lines, hlines, rfl⟩
      cases hlines with
      | generate hmaster hpair => exact ⟨_, _, hmaster, hpair, unlines_pair _ _⟩
  | sign secret message raw =>
    refine sign_returns_iff.trans ⟨?_, ?_⟩
    · rintro ⟨master, digest, pair, signature, hmaster, hdigest, hpair, hsignature, rfl⟩
      exact ⟨_, .sign hmaster hdigest hpair hsignature, (unlines_pair _ _).symm⟩
    · rintro ⟨lines, hlines, rfl⟩
      cases hlines with
      | sign hmaster hdigest hpair hsignature =>
        exact ⟨_, _, _, _, hmaster, hdigest, hpair, hsignature, unlines_pair _ _⟩
  | script publicKey =>
    refine script_returns_iff.trans ⟨?_, ?_⟩
    · rintro ⟨pk, hpk, rfl⟩
      exact ⟨_, .script hpk, Program.listing_eq_unlines pk _⟩
    · rintro ⟨lines, hlines, rfl⟩
      cases hlines with
      | script hpk => exact ⟨_, hpk, (Program.listing_eq_unlines _ _).symm⟩
  | verify publicKey signature message raw =>
    refine verify_returns_iff.trans ⟨?_, ?_⟩
    · rintro ⟨sig, hshape, hpk, hsignature, hmessage, rfl⟩
      exact ⟨_, .verify hshape hpk hsignature hmessage, (unlines_singleton _).symm⟩
    · rintro ⟨lines, hlines, rfl⟩
      cases hlines with
      | verify hshape hpk hsignature hmessage =>
        exact ⟨_, hshape, hpk, hsignature, hmessage, unlines_singleton _⟩

/-- What a command shows are lines: none of them contains a line feed. -/
theorem Shows.lineFeed_notMem {command : Command} {lines : List String}
    (h : Shows s command lines) : ∀ line ∈ lines, '\n' ∉ line.toList := by
  have hlabelled : ∀ {label value : String}, '\n' ∉ label.toList → '\n' ∉ value.toList →
      '\n' ∉ (label ++ value).toList := by
    intro label value hlabel hvalue
    rw [String.toList_append, List.mem_append, not_or]
    exact ⟨hlabel, hvalue⟩
  have hhex := Hex.lineFeed_notMem_encode
  cases h with
  | generate _ hpair =>
    obtain ⟨master, _, _, -, -, -, rfl⟩ := Scheme.keyPair_eq_ok_iff.mp hpair
    rw [List.forall_mem_cons, List.forall_mem_singleton]
    exact ⟨hlabelled (by decide) (lineFeed_notMem_extendedText master),
      hlabelled (by decide) (hhex _)⟩
  | sign =>
    rw [List.forall_mem_cons, List.forall_mem_singleton]
    exact ⟨hlabelled (by decide) (hhex _), hlabelled (by decide) (hhex _)⟩
  | script =>
    rw [List.forall_mem_map]
    exact fun line hline => (Verifier.isOneLined_program _ _ line hline).lineFeed_notMem _
  | verify =>
    rw [List.forall_mem_singleton]
    exact hlabelled (by decide) (hhex _)

/-- On a message the command that verifies can only show the digest of the message. -/
theorem Shows.eq_of_verify {publicKey signature message : String} {raw : Bool}
    {lines : List String} {digest : Bytes}
    (h : Shows s (.verify publicKey signature (some message) raw) lines)
    (hdigest : messageDigest message raw = .ok digest) :
    lines = ["digest: " ++ Hex.encode digest] := by
  cases h with
  | verify _ _ _ hmessage =>
    rw [Except.ok.inj (hdigest.symm.trans (hmessage message rfl))]

end Lines

/-! ## Faults of the configuration -/

/-- What is wrong with the configuration file at a path. The environment words it. -/
inductive Environment.ConfigFault (env : Environment) (path : String) : String → Prop
  /-- The file cannot be read. -/
  | unreadable {cause : String} (hread : env.readFile path = .error cause) :
    env.ConfigFault path ("failed to read '" ++ path ++ "': " ++ cause)
  /-- The text of the file is not understood. -/
  | malformed {document : String} (hread : env.readFile path = .ok document)
    (hparse : Config.parse document = none) : env.ConfigFault path (env.tomlError document)

/-- The configuration fails when its file cannot be read, and else as its text does. -/
theorem outcome_baseParams (env : Environment) (path : String) :
    (baseParams env (some path)).outcome =
      match env.readFile path with
      | .error cause => .error (.unreadableConfig path cause)
      | .ok document => Config.read env.tomlError document := by
  unfold baseParams
  dsimp only
  cases env.readFile path with
  | error cause => rfl
  | ok document =>
    dsimp only
    rw [Logged.outcome_bind, Logged.outcome_monadLift]
    cases Config.read env.tomlError document <;> rfl

/-- A fault of the configuration file ends the run before its command, and is reported as it is. -/
theorem Environment.ConfigFault.exists_error {env : Environment} {i : Invocation}
    {path fault : String} (h : env.ConfigFault path fault) (hpath : i.options.config = some path) :
    ∃ e, (i.run env).outcome = .error e ∧ e.message = "invalid configuration: " ++ fault := by
  have hends : ∀ e, (baseParams env (some path)).outcome = .error e →
      (i.run env).outcome = .error e := by
    intro e he
    unfold Invocation.run settleParams
    rw [Logged.outcome_bind, Logged.outcome_bind, hpath, he]
    rfl
  have hbase := outcome_baseParams env path
  cases h with
  | unreadable hread =>
    rw [hread] at hbase
    exact ⟨_, hends _ hbase, rfl⟩
  | malformed hread hparse =>
    rw [hread] at hbase
    exact ⟨_, hends _ (hbase.trans (Config.read_of_parse_eq_none hparse)), rfl⟩

/-! ## What a run shows -/

namespace Outcome

/-- The records of failures among those that are wanted. -/
def failures (o : Outcome) (verbosity : Nat) : List Event :=
  (o.records verbosity).filter Event.isFailure

/-- The record of a failure is always wanted. -/
theorem failures_eq (o : Outcome) (verbosity : Nat) :
    o.failures verbosity = o.events.filter Event.isFailure := by
  unfold failures records
  rw [List.filter_filter]
  refine List.filter_congr fun event _ => ?_
  cases hevent : event.isFailure with
  | false => rfl
  | true =>
    have hlevel : event.level = .error := of_decide_eq_true hevent
    rw [hlevel]
    simp [isWanted, Level.rank]

variable {x : Session Unit} (hx : x.Orderly)

include hx

/-- An orderly computation that fails shows its error and nothing else. -/
theorem ofSession_of_error {e : Error} (he : x.outcome = .error e) (verbosity : Nat) :
    (ofSession x).output = "" ∧ (ofSession x).failures verbosity = [.failed e] ∧
      (ofSession x).exitCode = 1 := by
  have hprinted := hx.printsLast e he
  have hfailures := List.filter_eq_nil_iff.mpr hx.noFailure
  rw [failures_eq]
  obtain ⟨written, outcome⟩ := x
  obtain rfl : outcome = .error e := he
  refine ⟨hprinted, ?_, rfl⟩
  change (written.filterMap Effect.event? ++ [Event.failed e]).filter Event.isFailure = _
  rw [List.filter_append, hfailures]
  rfl

/-- An orderly computation that returns shows no failure. -/
theorem failures_of_ok (hok : x.outcome = .ok ()) (verbosity : Nat) :
    (ofSession x).failures verbosity = [] := by
  have hfailures := List.filter_eq_nil_iff.mpr hx.noFailure
  rw [failures_eq]
  obtain ⟨written, outcome⟩ := x
  obtain rfl : outcome = .ok () := hok
  exact hfailures

end Outcome

/-- An invocation whose log file, if it asks for one, can be opened shows everything or nothing.
When it fails, nothing is printed, the wanted records hold one failure, with the message of the
error, and the exit code is 1. A fault of its configuration file is such an error, and the message
has it in the words of the environment. When it returns, no wanted record is a failure, the exit
code is 0, and what is printed are the lines that its command shows under the settled parameters,
each ended by a line feed. -/
theorem Request.outcome_invoke (env : Environment) (i : Invocation)
    (hlog : i.options.logFile = true → env.logOpens = true) :
    let o := (invoke i).outcome env
    (∀ e, (i.run env).outcome = .error e →
        o.output = "" ∧ (o.failures i.options.verbosity).map Event.message = [e.message] ∧
        o.exitCode = 1) ∧
      (∀ path fault, i.options.config = some path → env.ConfigFault path fault →
        ∃ e, (i.run env).outcome = .error e ∧ e.message = "invalid configuration: " ++ fault) ∧
      ((i.run env).outcome = .ok () →
        o.failures i.options.verbosity = [] ∧ o.exitCode = 0 ∧
        ∃ s lines, (settleParams env i.options).outcome = .ok s.params ∧
          Shows s i.command lines ∧ o.output = unlines lines ∧
          splitLines o.output = lines ++ [""]) := by
  intro o
  have hopens : (i.options.logFile && !env.logOpens) = false := by
    cases hwants : i.options.logFile with
    | false => rfl
    | true => rw [hlog hwants]; rfl
  have houtcome : o = .ofSession (i.run env) := by
    change (invoke i).outcome env = _
    rw [outcome, hopens, if_neg Bool.false_ne_true]
  have horderly := orderly_invocation env i
  rw [houtcome]
  refine ⟨fun e he => ?_, fun path fault hpath hfault => hfault.exists_error hpath, fun hok => ?_⟩
  · obtain ⟨houtput, hfailures, hcode⟩ :=
      Outcome.ofSession_of_error horderly he i.options.verbosity
    exact ⟨houtput, congrArg (List.map Event.message) hfailures, hcode⟩
  · -- A run that returns has settled on parameters, and then its command has returned.
    obtain ⟨p, hsettled, -⟩ := bind_eq_ok_iff.mp (Logged.outcome_bind _ _ ▸ hok)
    obtain ⟨s, rfl⟩ := exists_scheme_of_settleParams hsettled
    obtain ⟨lines, hlines, htext⟩ :=
      Command.returns_iff.mp ((Invocation.run_returns_iff hsettled).mp ⟨hok, rfl⟩)
    obtain ⟨hcode, houtput⟩ := returns_iff_ofSession.mp ⟨hok, htext⟩
    rw [houtput]
    exact ⟨Outcome.failures_of_ok horderly hok _, hcode, s, lines, hsettled, hlines, rfl,
      splitLines_unlines hlines.lineFeed_notMem⟩

/-- Options that ask for the smallest scheme and a log file, and may name a configuration file. -/
def loggedOptions (config : Option String) : Options :=
  ⟨config, some 1, some 2, 0, true⟩

/-- An invocation that verifies the blank signature of one digit on a message. -/
def verifyBlank (config : Option String) (message : String) : Invocation :=
  ⟨loggedOptions config, .verify (Hex.encode (Signature.blank 1).programKey.toList)
    (Hex.encode (Signature.blank 1).toBytes) (some message) true⟩

/-- What this invocation shows in an empty directory. -/
def verifyBlankOutcome (config : Option String) (message : String) : Outcome :=
  (Request.invoke (verifyBlank config message)).outcome emptyDirectory

/-- The blank signature is one of the digit 1. A run on this digit prints it, a run on another
digest names both, and a run whose configuration file is missing says so. -/
theorem Request.outcome_invoke_verifyBlank :
    (∀ config, (loggedOptions config).logFile = true → emptyDirectory.logOpens = true) ∧
      (verifyBlankOutcome none "01").output = "digest: 01\n" ∧
      (verifyBlankOutcome none "01").failures 0 = [] ∧
      (verifyBlankOutcome none "01").exitCode = 0 ∧
      (verifyBlankOutcome none "0101").output = "" ∧
      ((verifyBlankOutcome none "0101").failures 0).map Event.message =
        ["precondition failed: the signature authenticates 01, not 0101"] ∧
      (verifyBlankOutcome none "0101").exitCode = 1 ∧
      emptyDirectory.ConfigFault "a.toml"
        "failed to read 'a.toml': No such file or directory (os error 2)" ∧
      (verifyBlankOutcome (some "a.toml") "01").output = "" ∧
      ((verifyBlankOutcome (some "a.toml") "01").failures 0).map Event.message =
        ["invalid configuration: failed to read 'a.toml': No such file or directory (os error 2)"] ∧
      (verifyBlankOutcome (some "a.toml") "01").exitCode = 1 := by
  have hopens : ∀ config, (loggedOptions config).logFile = true →
      emptyDirectory.logOpens = true := fun _ _ => rfl
  obtain ⟨-, -, hok⟩ := outcome_invoke emptyDirectory (verifyBlank none "01") (hopens _)
  obtain ⟨herror, -⟩ := outcome_invoke emptyDirectory (verifyBlank none "0101") (hopens _)
  obtain ⟨hmissing, hreports, -⟩ :=
    outcome_invoke emptyDirectory (verifyBlank (some "a.toml") "01") (hopens _)
  have hsettled : (settleParams emptyDirectory (loggedOptions none)).outcome =
      .ok Scheme.smallest.params := by decide +kernel
  have hshape : Scheme.smallest.hasShape (.blank 1) = true := by decide
  have hpk := HexField.readFixed_encode "public key" (Signature.blank 1).programKey
  have hbytes := HexField.read_encode "signature" (Signature.blank 1).toBytes
  have hdigest : messageDigest "01" true = .ok [1] := by decide +kernel
  have hother : messageDigest "0101" true = .ok [1, 1] := by decide +kernel
  -- The program accepts the signature in both runs, and only the second message is another one.
  have hmessage : ∀ m ∈ some "01", messageDigest m true = .ok (Signature.blank 1).digest := by
    rintro m ⟨⟩
    exact hdigest
  have hreturns := verify_returns_iff.mpr ⟨.blank 1, hshape, hpk, hbytes, hmessage, rfl⟩
  have hfails := outcome_verify_of_ne hshape hpk hbytes hother (by decide)
  obtain ⟨hfailures, hcode, s, lines, -, hlines, houtput, -⟩ :=
    hok ((Invocation.outcome_run hsettled).trans hreturns.1)
  obtain ⟨hempty, hmessages, hcode'⟩ := herror _ ((Invocation.outcome_run hsettled).trans hfails)
  obtain rfl := hlines.eq_of_verify hdigest
  -- The third run does not come to its command.
  have hread : emptyDirectory.readFile "a.toml" =
      .error "No such file or directory (os error 2)" := rfl
  have hfault : emptyDirectory.ConfigFault "a.toml"
      "failed to read 'a.toml': No such file or directory (os error 2)" := .unreadable hread
  obtain ⟨e, he, hreport⟩ := hreports _ _ rfl hfault
  obtain ⟨hempty', hmessages', hcode''⟩ := hmissing e he
  rw [hreport] at hmessages'
  exact ⟨hopens, houtput, hfailures, hcode, hempty, hmessages, hcode', hfault, hempty',
    hmessages', hcode''⟩

end OneTimeSig.Cli
