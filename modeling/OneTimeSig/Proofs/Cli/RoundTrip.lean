import OneTimeSig.Proofs.Cli.Verify
import OneTimeSig.Proofs.Completeness

/-!
# What is signed is verified

The three commands only share texts. Signing prints a digest and a signature in hexadecimal, each at
the end of a line, and since no digit is a line feed both can be told from what is printed
(`lines_inj`). Whoever signs has a key pair, so key generation prints its public key. The command that
verifies reads both texts back: the signature is one that the key proves, and the program accepts it
under the public key (`IsSecretKey.programKey_of_proves`). `verify_of_sign` puts this together for
invocations that settle on the same parameters.
-/

namespace OneTimeSig.Cli

open Session

/-- Two lines with known labels are told apart when their values are parts of one line. -/
theorem lines_inj {label label' x x' y y' : String} (hlabel : '\n' ∉ label'.toList)
    (hx : '\n' ∉ x'.toList) (hy : '\n' ∉ y'.toList)
    (h : label ++ x ++ "\n" ++ (label' ++ y ++ "\n") =
      label ++ x' ++ "\n" ++ (label' ++ y' ++ "\n")) : x = x' ∧ y = y' := by
  have hchars := congrArg String.toList h
  simp only [String.toList_append, List.append_assoc, List.append_cancel_left_eq] at hchars
  -- Without the line feed at the end, what is left has one line feed on the side of the known values.
  have hlines : x'.toList ++ '\n' :: (label'.toList ++ y'.toList) =
      x.toList ++ '\n' :: (label'.toList ++ y.toList) := by
    have hfed : x'.toList ++ '\n' :: (label'.toList ++ y'.toList) ++ ['\n'] =
        x.toList ++ '\n' :: (label'.toList ++ y.toList) ++ ['\n'] := by
      simpa using hchars.symm
    exact List.append_cancel_right hfed
  have hrest : '\n' ∉ label'.toList ++ y'.toList := by
    rw [List.mem_append, not_or]
    exact ⟨hlabel, hy⟩
  obtain ⟨hfirst, -, hsecond⟩ := (List.append_cons_inj_of_notMem hx hrest).mp hlines
  exact ⟨String.toList_inj.mp hfirst.symm,
    String.toList_inj.mp (List.append_cancel_left hsecond).symm⟩

/-- What signing prints is told apart into the texts of the digest and of the signature. -/
theorem sign_text_inj {x y : String} {digest bytes : Bytes}
    (h : "digest: " ++ x ++ "\n" ++ ("signature: " ++ y ++ "\n") =
      "digest: " ++ Hex.encode digest ++ "\n" ++ ("signature: " ++ Hex.encode bytes ++ "\n")) :
    x = Hex.encode digest ∧ y = Hex.encode bytes :=
  lines_inj (by decide) (Hex.lineFeed_notMem_encode _) (Hex.lineFeed_notMem_encode _) h

/-- What is signed is verified, by invocations that settle on the same parameters. If signing prints a
digest and a signature, key generation prints a public key for the same secret. With this key and the
signature the command that verifies prints the digest, on no message as on the one that was signed; on
every message with another digest it fails with an unmet precondition, and names both digests. -/
theorem verify_of_sign {p : Params} {envSign envGenerate envVerify : Environment}
    {forSign forGenerate forVerify : Options}
    (hsign : (settleParams envSign forSign).outcome = .ok p)
    (hgenerate : (settleParams envGenerate forGenerate).outcome = .ok p)
    (hverify : (settleParams envVerify forVerify).outcome = .ok p)
    {secret message x y : String} {raw : Bool}
    (h : Returns (Invocation.run envSign ⟨forSign, .sign secret message raw⟩) ()
      ("digest: " ++ x ++ "\n" ++ ("signature: " ++ y ++ "\n"))) :
    ∃ (xprv : String) (pk : PublicKey),
      Returns (Invocation.run envGenerate ⟨forGenerate, .generate secret⟩) ()
        ("xprv: " ++ xprv ++ "\n" ++ ("public key: " ++ Hex.encode pk.toList ++ "\n")) ∧
      (∀ other flag, other = none ∨ (other = some message ∧ flag = raw) →
        Returns (Invocation.run envVerify
          ⟨forVerify, .verify (Hex.encode pk.toList) y other flag⟩) () ("digest: " ++ x ++ "\n")) ∧
      ∀ other flag digest, messageDigest other flag = .ok digest → Hex.encode digest ≠ x →
        ∃ e, (Invocation.run envVerify
            ⟨forVerify, .verify (Hex.encode pk.toList) y (some other) flag⟩).outcome = .error e ∧
          e.kind = .precondition ∧
          e.detail = "the signature authenticates " ++ x ++ ", not " ++ Hex.encode digest := by
  obtain ⟨s, rfl⟩ := exists_scheme_of_settleParams hsign
  obtain ⟨master, digest, pair, sig, hmaster, hdigest, hpair, hsig, htext⟩ :=
    sign_returns_iff.mp ((Invocation.run_returns_iff hsign).mp h)
  obtain ⟨rfl, rfl⟩ := sign_text_inj htext
  obtain ⟨hkey, hpublic⟩ := Scheme.isSecretKey_of_keyPair hpair
  obtain ⟨hproves, rfl⟩ := hkey.sign_eq_ok_iff.mp hsig
  have hshape := hkey.hasShape_of_proves hproves
  have hprogramKey : HexField.readFixed 32 "public key" (Hex.encode pair.publicKey.toList) =
      .ok sig.programKey := by
    rw [HexField.readFixed_encode, hpublic, hkey.programKey_of_proves hproves]
  have hbytes := HexField.read_encode "signature" sig.toBytes
  refine ⟨pair.secretKey.extendedText, pair.publicKey, ?_, fun other flag hother => ?_,
    fun other flag expected hexpected hne => ?_⟩
  · rw [Invocation.run_returns_iff hgenerate]
    exact generate_returns_iff.mpr ⟨master, pair, hmaster, hpair, rfl⟩
  · rw [Invocation.run_returns_iff hverify]
    refine verify_returns_iff.mpr ⟨sig, hshape, hprogramKey, hbytes, fun m hm => ?_, rfl⟩
    rcases hother with rfl | ⟨rfl, rfl⟩
    · nomatch hm
    · obtain rfl := Option.mem_some_iff.mp hm
      exact hdigest
  · have hother : expected ≠ sig.digest := fun heq => hne (heq ▸ rfl)
    rw [Invocation.outcome_run hverify]
    exact ⟨_, outcome_verify_of_ne hshape hprogramKey hbytes hexpected hother, rfl, rfl⟩

/-- Options that ask for the smallest scheme. -/
def smallestOptions : Options :=
  ⟨none, some 1, some 2, 0, false⟩

/-- In an empty directory the digit 1 is signed with the secret of zeros, the printed texts are
verified, and another message is refused. -/
theorem verify_of_sign_smallest :
    ∃ y xprv pk,
      Returns (Invocation.run emptyDirectory
        ⟨smallestOptions, .sign (Hex.encode (FixedBytes.ofNat 32 0).toList) "01" true⟩) ()
        ("digest: " ++ "01" ++ "\n" ++ ("signature: " ++ y ++ "\n")) ∧
      Returns (Invocation.run emptyDirectory
        ⟨smallestOptions, .generate (Hex.encode (FixedBytes.ofNat 32 0).toList)⟩) ()
        ("xprv: " ++ xprv ++ "\n" ++ ("public key: " ++ Hex.encode pk.toList ++ "\n")) ∧
      Returns (Invocation.run emptyDirectory
        ⟨smallestOptions, .verify (Hex.encode (pk : PublicKey).toList) y (some "01") true⟩) ()
        "digest: 01\n" ∧
      ∃ e, (Invocation.run emptyDirectory
          ⟨smallestOptions, .verify (Hex.encode pk.toList) y (some "0101") true⟩).outcome =
          .error e ∧
        e.message = "precondition failed: the signature authenticates 01, not 0101" := by
  have hsettled : (settleParams emptyDirectory smallestOptions).outcome =
      .ok Scheme.smallest.params := by decide +kernel
  obtain ⟨kp, hkp⟩ := Scheme.exists_keyPair_smallest
  obtain ⟨hkey, -⟩ := Scheme.isSecretKey_of_keyPair hkp
  have hlen : [(1 : UInt8)].length = Scheme.smallest.digits := rfl
  have hleaf : ∀ b ∈ [(1 : UInt8)], b.toNat < Scheme.smallest.leafCount :=
    List.forall_mem_singleton.mpr (by decide)
  obtain ⟨sig, hproves, hdigest⟩ := hkey.exists_proves hlen hleaf
  have hmaster : MasterSecret.parse (Hex.encode (FixedBytes.ofNat 32 0).toList) =
      .ok ⟨FixedBytes.ofNat 32 0⟩ := by
    rw [MasterSecret.parse, HexField.readFixed_encode]
    rfl
  have hsigned : Returns (Invocation.run emptyDirectory
      ⟨smallestOptions, .sign (Hex.encode (FixedBytes.ofNat 32 0).toList) "01" true⟩) ()
      ("digest: " ++ "01" ++ "\n" ++ ("signature: " ++ Hex.encode sig.toBytes ++ "\n")) := by
    rw [Invocation.run_returns_iff hsettled]
    exact sign_returns_iff.mpr ⟨_, [1], kp, sig, hmaster, by decide +kernel, hkp,
      hkey.sign_eq_ok_iff.mpr ⟨hproves, hdigest⟩, rfl⟩
  obtain ⟨xprv, pk, hgenerated, hverified, hrefused⟩ :=
    verify_of_sign hsettled hsettled hsettled hsigned
  obtain ⟨e, herror, hkind, hdetail⟩ :=
    hrefused "0101" true [1, 1] (by decide +kernel) (by decide +kernel)
  refine ⟨_, xprv, pk, hsigned, hgenerated, hverified _ _ (.inr ⟨rfl, rfl⟩), e, herror, ?_⟩
  rw [Error.message, hkind, hdetail]
  rfl

end OneTimeSig.Cli
