import OneTimeSig.Proofs.Completeness

/-!
# What several signatures of one key give away

A key may sign one digest only. The proof of a digit depends on the tree of its place and on the
digit, and on nothing else of the digest (`SecretKey.Proves.getElem?_proofs`). So whoever has
signatures of several digests can take the proof of each digit from any of them that has the digit at
this place, and what is put together in this way (`Signature.splice`) is the signature that the key
itself makes (`SecretKey.Proves.splice_eq`). `sign_spliced` states this for all digests that can be
put together from signed ones, with what it means for both verifiers.
-/

namespace OneTimeSig

/-- Two signatures of a key that are of the same digit at some place have the same proof there. -/
theorem SecretKey.Proves.getElem?_proofs {key : SecretKey} {sig sig' : Signature}
    (h : key.Proves sig) (h' : key.Proves sig') {digit : Nat}
    (hdigit : sig.digest[digit]? = sig'.digest[digit]?) :
    sig.proofs[digit]? = sig'.proofs[digit]? := by
  rw [Signature.digest, Signature.digest, List.getElem?_map, List.getElem?_map] at hdigit
  rcases Nat.lt_or_ge digit key.trees.length with hlt | hge
  · have hp : digit < sig.proofs.length := by rwa [← h.length_eq]
    have hp' : digit < sig'.proofs.length := by rwa [← h'.length_eq]
    have hprove : key.trees[digit].prove sig.proofs[digit].control = .ok sig.proofs[digit] :=
      h.get hlt hp
    have hprove' : key.trees[digit].prove sig'.proofs[digit].control = .ok sig'.proofs[digit] :=
      h'.get hlt hp'
    rw [List.getElem?_eq_getElem hp, List.getElem?_eq_getElem hp'] at hdigit ⊢
    -- Both proofs are the one that the tree gives of the digit.
    rw [Option.some.inj hdigit] at hprove
    rw [Except.ok.inj (hprove.symm.trans hprove')]
  · rw [List.getElem?_eq_none (by rwa [← h.length_eq]),
      List.getElem?_eq_none (by rwa [← h'.length_eq])]

/-- The elements of a list are those found at the places below its length. -/
theorem filterMap_range_getElem? {α : Type} (as : List α) :
    (List.range as.length).filterMap (fun i => as[i]?) = as := by
  have hplaces : (List.range as.length).map (fun i => as[i]?) = as.map some := by
    refine List.ext_getElem (by simp) fun i hi hi' => ?_
    rw [List.length_map] at hi'
    rw [List.getElem_map, List.getElem_map, List.getElem_range, List.getElem?_eq_getElem hi']
  calc (List.range as.length).filterMap (fun i => as[i]?)
    _ = ((List.range as.length).map fun i => as[i]?).filterMap id := by rw [List.filterMap_map]; rfl
    _ = (as.map some).filterMap id := by rw [hplaces]
    _ = as := by rw [List.filterMap_map]; exact List.filterMap_some

/-- The signature whose proof of each digit is taken from one of several signatures, at the place of
the digit; `source` tells from which. -/
def Signature.splice (sigs : List Signature) (source : Nat → Nat) (digits : Nat) : Signature :=
  ⟨(List.range digits).filterMap fun digit =>
    sigs[source digit]?.bind fun sig => sig.proofs[digit]?⟩

/-- What is taken from signatures of a key that are of the digits of another one at their places is
this other signature. -/
theorem SecretKey.Proves.splice_eq {key : SecretKey} {sig : Signature} (h : key.Proves sig)
    {sigs : List Signature} {source : Nat → Nat}
    (hsource : ∀ digit < sig.proofs.length, ∃ given, sigs[source digit]? = some given ∧
      key.Proves given ∧ given.digest[digit]? = sig.digest[digit]?) :
    Signature.splice sigs source sig.proofs.length = sig := by
  have hproofs : ∀ digit ∈ List.range sig.proofs.length,
      (sigs[source digit]?.bind fun given => given.proofs[digit]?) = sig.proofs[digit]? := by
    intro digit hdigit
    obtain ⟨given, hgiven, hproves, hsame⟩ := hsource digit (List.mem_range.mp hdigit)
    rw [hgiven, Option.bind_some]
    exact hproves.getElem?_proofs h hsame
  rw [Signature.splice, List.filterMap_congr hproofs, filterMap_range_getElem?]

/-- Each digit of the digest is found at its place in the signed digest that `source` names. -/
def FindsDigits (digests : List Bytes) (source : Nat → Nat) (digest : Bytes) : Prop :=
  ∀ digit < digest.length,
    ∃ signed, digests[source digit]? = some signed ∧ signed[digit]? = digest[digit]?

/-- Where each digit is at its place in some signed digest, there is one to be named for it. -/
theorem exists_findsDigits {digests : List Bytes} {digest : Bytes}
    (h : ∀ digit < digest.length, ∃ signed ∈ digests, signed[digit]? = digest[digit]?) :
    ∃ source, FindsDigits digests source digest := by
  have hplace : ∀ digit : Nat, ∃ place : Nat, digit < digest.length →
      ∃ signed : Bytes, digests[place]? = some signed ∧ signed[digit]? = digest[digit]? := by
    intro digit
    by_cases hdigit : digit < digest.length
    · obtain ⟨signed, hmem, hsame⟩ := h digit hdigit
      obtain ⟨place, hplace⟩ := List.getElem?_of_mem hmem
      exact ⟨place, fun _ => ⟨signed, hplace, hsame⟩⟩
    · exact ⟨0, fun hlt => absurd hlt hdigit⟩
  choose source hsource using hplace
  exact ⟨source, hsource⟩

namespace Scheme

open Script

variable {s : Scheme} {key : SecretKey}

/-- A key signs every digest that has a leaf for each digit, with a signature that it proves. -/
theorem IsSecretKey.exists_signatures (h : s.IsSecretKey key) {digests : List Bytes}
    (hdigests : ∀ d ∈ digests, d.length = s.digits ∧ ∀ b ∈ d, b.toNat < s.leafCount) :
    ∃ sigs, List.Forall₂ (fun d sig => (s.sign d key).outcome = .ok sig) digests sigs := by
  induction digests with
  | nil => exact ⟨[], .nil⟩
  | cons d digests ih =>
    rw [List.forall_mem_cons] at hdigests
    obtain ⟨sig, hproves, hdigest⟩ := h.exists_proves hdigests.1.1 hdigests.1.2
    obtain ⟨sigs, hsigs⟩ := ih hdigests.2
    exact ⟨sig :: sigs, .cons (h.sign_eq_ok_iff.mpr ⟨hproves, hdigest⟩) hsigs⟩

/-- The signature of a digest is put together from signatures of digests that have its digits at
their places. -/
theorem IsSecretKey.splice_eq (h : s.IsSecretKey key) {digests : List Bytes} {sigs : List Signature}
    (hsigned : List.Forall₂ (fun d sig => (s.sign d key).outcome = .ok sig) digests sigs)
    {sig : Signature} (hproves : key.Proves sig) {source : Nat → Nat}
    (hsource : FindsDigits digests source sig.digest) :
    Signature.splice sigs source s.digits = sig := by
  have hlength : sig.proofs.length = s.digits := by rw [← hproves.length_eq, h.length_trees]
  rw [← hlength]
  refine hproves.splice_eq fun digit hdigit => ?_
  obtain ⟨signed, hsigned', hsame⟩ := hsource digit (by rwa [Signature.digest, List.length_map])
  obtain ⟨hplace, hget⟩ := List.getElem?_eq_some_iff.mp hsigned'
  have hplace' : source digit < sigs.length := by rwa [← hsigned.length_eq]
  obtain ⟨hgiven, hof⟩ := h.sign_eq_ok_iff.mp (hsigned.get hplace hplace')
  rw [List.get_eq_getElem, List.get_eq_getElem, hget] at hof
  refine ⟨_, List.getElem?_eq_getElem hplace', hgiven, ?_⟩
  rw [← hsame, ← hof]

/-- A key pair signs all digests that have a leaf for each digit. Whoever has these signatures can sign
every digest whose digits are found at their places in the signed ones: however the proof of each digit
is taken from a signature of a digest that has the digit there, what is put together is the signature
that the secret key makes, is verified under the public key, and makes the compiled program return the
digest. -/
theorem sign_spliced (s : Scheme) (secret : MasterSecret) (kp : KeyPair)
    (hkp : (s.keyPair secret).outcome = .ok kp) (digests : List Bytes)
    (hdigests : ∀ d ∈ digests, d.length = s.digits ∧ ∀ b ∈ d, b.toNat < s.leafCount) :
    ∃ sigs, List.Forall₂ (fun d sig => (s.sign d kp.secretKey).outcome = .ok sig) digests sigs ∧
      ∀ digest : Bytes, digest.length = s.digits →
        (∀ digit < digest.length, ∃ signed ∈ digests, signed[digit]? = digest[digit]?) →
        (∃ source, FindsDigits digests source digest) ∧
        ∀ source, FindsDigits digests source digest →
          (s.sign digest kp.secretKey).outcome = .ok (.splice sigs source s.digits) ∧
          s.verify digest (.splice sigs source s.digits) kp.publicKey = true ∧
          ∃ program, Verifier.compile s.params = .ok program ∧
            Machine.execute program kp.publicKey
              (Signature.splice sigs source s.digits).witness = .ok digest := by
  obtain ⟨hkey, hpublic⟩ := isSecretKey_of_keyPair hkp
  obtain ⟨sigs, hsigned⟩ := hkey.exists_signatures hdigests
  refine ⟨sigs, hsigned, fun digest hlen hfound => ⟨exists_findsDigits hfound, ?_⟩⟩
  intro source hsource
  -- Every digit stands in a signed digest, so it has a leaf.
  have hleaf : ∀ b ∈ digest, b.toNat < s.leafCount := by
    intro b hb
    obtain ⟨digit, hdigit⟩ := List.getElem?_of_mem hb
    obtain ⟨signed, hmem, hsame⟩ := hfound digit (List.getElem?_eq_some_iff.mp hdigit).1
    exact (hdigests signed hmem).2 b (List.mem_of_getElem? (hsame.trans hdigit))
  obtain ⟨sig, hproves, rfl⟩ := hkey.exists_proves hlen hleaf
  rw [hkey.splice_eq hsigned hproves hsource, hpublic]
  exact ⟨hkey.sign_eq_ok_iff.mpr ⟨hproves, rfl⟩, hkey.verify_of_proves hproves, _,
    Verifier.compile_params s, hkey.execute_of_proves hproves⟩

/-- The smallest scheme with two digits. -/
def ofTwoDigits : Scheme := ⟨⟨2, 2⟩, rfl⟩

/-- Key generation succeeds for the secret of zeros in the smallest scheme with two digits. -/
theorem exists_keyPair_ofTwoDigits :
    ∃ kp, (ofTwoDigits.keyPair ⟨FixedBytes.ofNat 32 0⟩).outcome = .ok kp :=
  exists_keyPair_zeros (by decide) (by decide)

/-- Signatures of the digests 00 01 and 01 00 give one of 01 01, which has the first proof of the
latter and the second of the former. -/
theorem sign_spliced_ofTwoDigits :
    ∃ kp sig sig', (ofTwoDigits.keyPair ⟨FixedBytes.ofNat 32 0⟩).outcome = .ok kp ∧
      (ofTwoDigits.sign [0, 1] kp.secretKey).outcome = .ok sig ∧
      (ofTwoDigits.sign [1, 0] kp.secretKey).outcome = .ok sig' ∧
      (ofTwoDigits.sign [1, 1] kp.secretKey).outcome = .ok (.splice [sig, sig'] (1 - ·) 2) ∧
      ofTwoDigits.verify [1, 1] (.splice [sig, sig'] (1 - ·) 2) kp.publicKey = true := by
  obtain ⟨kp, hkp⟩ := exists_keyPair_ofTwoDigits
  have hdigests : ∀ d ∈ [[0, 1], [(1 : UInt8), 0]],
      d.length = ofTwoDigits.digits ∧ ∀ b ∈ d, b.toNat < ofTwoDigits.leafCount := by decide +kernel
  obtain ⟨sigs, hsigned, hspliced⟩ := sign_spliced ofTwoDigits _ kp hkp _ hdigests
  obtain ⟨sig, _, hsig, hrest, rfl⟩ := List.forall₂_cons_left_iff.mp hsigned
  obtain ⟨sig', _, hsig', hnil, rfl⟩ := List.forall₂_cons_left_iff.mp hrest
  obtain rfl := List.forall₂_nil_left_iff.mp hnil
  have hsource : FindsDigits [[0, 1], [1, 0]] (1 - ·) [1, 1] := by
    intro digit hdigit
    have hlt : digit < 2 := hdigit
    obtain rfl | rfl : digit = 0 ∨ digit = 1 := by omega
    · exact ⟨_, rfl, rfl⟩
    · exact ⟨_, rfl, rfl⟩
  obtain ⟨-, hsplice⟩ := hspliced [1, 1] rfl (by decide)
  obtain ⟨hsign, hverify, -⟩ := hsplice _ hsource
  exact ⟨kp, sig, sig', hkp, hsig, hsig', hsign, hverify⟩

end Scheme

end OneTimeSig
