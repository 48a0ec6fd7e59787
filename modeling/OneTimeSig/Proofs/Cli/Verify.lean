import OneTimeSig.Proofs.Agreement
import OneTimeSig.Proofs.Cli.Session
import OneTimeSig.Proofs.WireFormat

/-!
# What the command that verifies accepts

The command runs the verifier program, and compares the digest that the program returns with the
message's only afterwards. The program depends on the parameters alone, and it returns on the items of
a signature under one key only. So the command returns on the texts of this key and of a signature of
the shape, when the message, if there is one, has the digest of the signature
(`verify_returns_iff`). On a message with another digest it fails with both digests
(`outcome_verify_of_ne`).

For a message whose digits have leaves this is what the native verifier says: when the digests are the
same, the control bytes are the digits of the message, and then both verifiers recover the same key
(`verify_iff_native`).
-/

namespace OneTimeSig.Cli

open Session Script
open Logged (writes_pure writes_monadLift writes_fail)

/-! ## The steps of the command -/

section Steps

variable {α : Type} {a : α} {text : String}

/-- Compiling ends as the compiler does. -/
theorem outcome_compile (p : Params) : (compile p).outcome = Verifier.compile p := by
  unfold compile
  rw [Logged.outcome_bind, Logged.outcome_monadLift]
  cases Verifier.compile p <;> rfl

/-- Running the program ends with what it returns. -/
theorem outcome_execute {program : Program} {pk : PublicKey} {witness : List Bytes} {out : Bytes}
    (h : Machine.execute program pk witness = .ok out) :
    (execute program pk witness).outcome = .ok out := by
  unfold execute
  rw [h]
  rfl

/-- Compiling the program adds nothing to what is printed. -/
theorem returns_compile_bind_iff {p : Params} {f : Program → Session α} :
    Returns (compile p >>= f) a text ↔
      ∃ program, Verifier.compile p = .ok program ∧ Returns (f program) a text := by
  unfold compile
  simp only [bind_assoc, returns_lift_bind_iff, returns_log_bind_iff, pure_bind]

/-- Running the program adds nothing to what is printed. -/
theorem returns_execute_bind_iff {program : Program} {pk : PublicKey} {witness : List Bytes}
    {f : Bytes → Session α} :
    Returns (execute program pk witness >>= f) a text ↔
      ∃ out, Machine.execute program pk witness = .ok out ∧ Returns (f out) a text := by
  unfold execute
  cases Machine.execute program pk witness with
  | error cause => simp [Returns, Logged.fail]
  | ok out => simp

variable {digest : Bytes} {raw : Bool}

/-- Without a message there is nothing to compare. -/
theorem compareDigest_none : compareDigest digest none raw = pure () := rfl

/-- The digest of a message that is read has to be the one of the signature. -/
theorem outcome_compareDigest {message : String} :
    (compareDigest digest (some message) raw).outcome =
      messageDigest message raw >>= fun expected =>
        if expected = digest then .ok () else .error (.otherDigest digest expected) := by
  unfold compareDigest
  dsimp only
  rw [Logged.outcome_bind, Logged.outcome_monadLift]
  refine bind_congr fun expected => ?_
  rcases eq_or_ne expected digest with heq | hne
  · rw [if_neg (not_not.mpr heq), if_pos heq]
    rfl
  · rw [if_pos hne, if_neg hne]
    rfl

/-- Comparing digests is quiet. -/
theorem quiet_compareDigest (digest : Bytes) (message : Option String) (raw : Bool) :
    (compareDigest digest message raw).Writes Effect.IsQuiet := by
  unfold compareDigest
  cases message with
  | none => exact writes_pure ()
  | some message =>
    refine (writes_monadLift _).bind fun expected => ?_
    dsimp only
    split_ifs
    · exact (writes_fail _).bind fun _ => quiet_log (by nofun)
    · exact quiet_log (by nofun)

/-- Comparing digests succeeds when the message, if there is one, has the digest. It adds nothing to
what is printed. -/
theorem returns_compareDigest_bind_iff {message : Option String} {f : Unit → Session α} :
    Returns (compareDigest digest message raw >>= f) a text ↔
      (∀ m ∈ message, messageDigest m raw = .ok digest) ∧ Returns (f ()) a text := by
  have hcompare : (compareDigest digest message raw).outcome = .ok () ↔
      ∀ m ∈ message, messageDigest m raw = .ok digest := by
    cases message with
    | none => simp [compareDigest_none]
    | some m =>
      simp only [outcome_compareDigest, Option.mem_some_iff, forall_eq']
      cases messageDigest m raw with
      | error e => simp
      | ok expected => simp
  rw [returns_bind_iff_of_silent (printed_eq_empty (quiet_compareDigest _ _ _)), ← hcompare]
  exact ⟨fun ⟨_, hok, hrest⟩ => ⟨hok, hrest⟩, fun ⟨hok, hrest⟩ => ⟨(), hok, hrest⟩⟩

end Steps

/-! ## The whole command -/

section Command

variable {s : Scheme} {publicKey signature text : String} {message : Option String} {raw : Bool}

/-- The command returns on the texts of a signature of the shape and of the key that the program
accepts it under, when the message, if there is one, has the digest of the signature. It prints the
digest then. -/
theorem verify_returns_iff :
    Returns (verify s.params publicKey signature message raw) () text ↔
      ∃ sig, s.hasShape sig = true ∧
        HexField.readFixed 32 "public key" publicKey = .ok sig.programKey ∧
        HexField.read "signature" signature = .ok sig.toBytes ∧
        (∀ m ∈ message, messageDigest m raw = .ok sig.digest) ∧
        text = "digest: " ++ Hex.encode sig.digest ++ "\n" := by
  unfold verify
  simp only [returns_lift_bind_iff, returns_compile_bind_iff, returns_execute_bind_iff,
    returns_log_bind_iff, returns_compareDigest_bind_iff, Verifier.compile_params, Except.ok.injEq,
    exists_eq_left']
  constructor
  · rintro ⟨pk, hpk, bytes, hbytes, sig, hread, out, hrun, hmessage, -, rfl⟩
    obtain ⟨hshape, rfl⟩ := Scheme.ofBytes_eq_ok_iff.mp hread
    obtain ⟨rfl, rfl⟩ := (Scheme.execute_witness_eq_ok_iff hshape _ _).mp hrun
    exact ⟨sig, hshape, hpk, hbytes, hmessage, (printed_printLine _).symm⟩
  · rintro ⟨sig, hshape, hpk, hbytes, hmessage, rfl⟩
    have hread := Scheme.ofBytes_eq_ok_iff.mpr ⟨hshape, rfl⟩
    have hrun := (Scheme.execute_witness_eq_ok_iff hshape _ _).mpr ⟨rfl, rfl⟩
    exact ⟨_, hpk, _, hbytes, sig, hread, _, hrun, hmessage, rfl, printed_printLine _⟩

/-- On a message with another digest the command fails with both digests. -/
theorem outcome_verify_of_ne {sig : Signature} {m : String} {expected : Bytes}
    (hshape : s.hasShape sig = true)
    (hpk : HexField.readFixed 32 "public key" publicKey = .ok sig.programKey)
    (hbytes : HexField.read "signature" signature = .ok sig.toBytes)
    (hexpected : messageDigest m raw = .ok expected) (hne : expected ≠ sig.digest) :
    (verify s.params publicKey signature (some m) raw).outcome =
      .error (.otherDigest sig.digest expected) := by
  have hread := Scheme.ofBytes_eq_ok_iff.mpr ⟨hshape, rfl⟩
  have hrun := (Scheme.execute_witness_eq_ok_iff hshape _ _).mpr ⟨rfl, rfl⟩
  unfold verify
  simp only [Logged.outcome_bind, Logged.outcome_monadLift, hpk, hbytes, hread, outcome_compile,
    Verifier.compile_params, outcome_execute hrun, outcome_compareDigest, hexpected, ok_bind,
    if_neg hne, error_bind]
  rfl

end Command

/-! ## The native verifier -/

/-- For every message whose digits have leaves the command agrees with the native verifier: it returns
when the texts of the key, the signature and the message are read, the bytes of the signature are read
under the parameters, and the native verifier accepts the signature of the digest of the message under
the key. What it prints then is the digest of the message. -/
theorem verify_iff_native (s : Scheme) (publicKey signature message : String) (raw : Bool)
    (h : ∀ digest, messageDigest message raw = .ok digest → ∀ b ∈ digest, b.toNat < s.leafCount) :
    ((verify s.params publicKey signature (some message) raw).outcome = .ok () ↔
      ∃ pk bytes digest sig, HexField.readFixed 32 "public key" publicKey = .ok pk ∧
        HexField.read "signature" signature = .ok bytes ∧ messageDigest message raw = .ok digest ∧
        Signature.ofBytes s.params bytes = .ok sig ∧ s.verify digest sig pk = true) ∧
      ((verify s.params publicKey signature (some message) raw).outcome = .ok () →
        ∃ digest, messageDigest message raw = .ok digest ∧
          printed (verify s.params publicKey signature (some message) raw) =
            "digest: " ++ Hex.encode digest ++ "\n") := by
  -- The digits of the message are the control bytes, so they all have leaves.
  have hkeys : ∀ {sig : Signature}, s.hasShape sig = true →
      messageDigest message raw = .ok sig.digest → sig.recoverPublicKey = sig.programKey := by
    intro sig hshape hdigest
    exact Scheme.keys_eq_of_digest_lt hshape (h _ hdigest)
  have haccepted : (verify s.params publicKey signature (some message) raw).outcome = .ok () →
      ∃ sig, s.hasShape sig = true ∧
        HexField.readFixed 32 "public key" publicKey = .ok sig.programKey ∧
        HexField.read "signature" signature = .ok sig.toBytes ∧
        messageDigest message raw = .ok sig.digest ∧
        printed (verify s.params publicKey signature (some message) raw) =
          "digest: " ++ Hex.encode sig.digest ++ "\n" := by
    intro hok
    obtain ⟨sig, hshape, hpk, hbytes, hmessage, htext⟩ := verify_returns_iff.mp ⟨hok, rfl⟩
    exact ⟨sig, hshape, hpk, hbytes, hmessage _ rfl, htext⟩
  refine ⟨⟨fun hok => ?_, ?_⟩, fun hok => ?_⟩
  · obtain ⟨sig, hshape, hpk, hbytes, hdigest, -⟩ := haccepted hok
    exact ⟨_, _, _, sig, hpk, hbytes, hdigest, Scheme.ofBytes_eq_ok_iff.mpr ⟨hshape, rfl⟩,
      Scheme.verify_iff.mpr ⟨hshape, rfl, hkeys hshape hdigest⟩⟩
  · rintro ⟨pk, bytes, digest, sig, hpk, hbytes, hdigest, hread, hverify⟩
    obtain ⟨hshape, rfl⟩ := Scheme.ofBytes_eq_ok_iff.mp hread
    obtain ⟨-, rfl, rfl⟩ := Scheme.verify_iff.mp hverify
    rw [hkeys hshape hdigest] at hpk
    have hmessage : ∀ m ∈ some message, messageDigest m raw = .ok sig.digest := by
      simpa using hdigest
    exact (verify_returns_iff.mpr ⟨sig, hshape, hpk, hbytes, hmessage, rfl⟩).1
  · obtain ⟨sig, -, -, -, hdigest, htext⟩ := haccepted hok
    exact ⟨_, hdigest, htext⟩

/-- The command accepts the blank signature of the digit 1 on this message, as the native verifier
does. -/
theorem verify_iff_native_blank :
    (∀ digest, messageDigest "01" true = .ok digest →
        ∀ b ∈ digest, b.toNat < Scheme.smallest.leafCount) ∧
      (verify Scheme.smallest.params (Hex.encode (Signature.blank 1).recoverPublicKey.toList)
        (Hex.encode (Signature.blank 1).toBytes) (some "01") true).outcome = .ok () ∧
      printed (verify Scheme.smallest.params
        (Hex.encode (Signature.blank 1).recoverPublicKey.toList)
        (Hex.encode (Signature.blank 1).toBytes) (some "01") true) = "digest: 01\n" := by
  have hdigest : messageDigest "01" true = .ok [1] := by decide +kernel
  have hleaves : ∀ digest, messageDigest "01" true = .ok digest →
      ∀ b ∈ digest, b.toNat < Scheme.smallest.leafCount := by
    intro digest h
    rw [hdigest] at h
    obtain rfl := Except.ok.inj h
    exact List.forall_mem_singleton.mpr (by decide)
  have hshape : Scheme.smallest.hasShape (.blank 1) = true := by decide
  obtain ⟨hiff, hprinted⟩ := verify_iff_native Scheme.smallest
    (Hex.encode (Signature.blank 1).recoverPublicKey.toList) (Hex.encode (Signature.blank 1).toBytes)
    "01" true hleaves
  have hok := hiff.mpr ⟨_, _, [1], .blank 1, HexField.readFixed_encode _ _, HexField.read_encode _ _,
    hdigest, Scheme.ofBytes_toBytes hshape, Scheme.verify_iff.mpr ⟨hshape, rfl, rfl⟩⟩
  obtain ⟨digest, hsame, htext⟩ := hprinted hok
  obtain rfl := Except.ok.inj (hdigest.symm.trans hsame)
  exact ⟨hleaves, hok, htext⟩

end OneTimeSig.Cli
