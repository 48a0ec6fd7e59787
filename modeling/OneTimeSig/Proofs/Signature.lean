import OneTimeSig.Proofs.Outcome
import OneTimeSig.Proofs.Params
import OneTimeSig.Proofs.Path
import OneTimeSig.Signing

/-!
# The bytes of a signature

A reader that is given what the writer wrote, and anything behind it, returns the value and leaves
the rest. This holds of a string of known width, then of the siblings and of a proof, and so of all
proofs of a signature. A signature of the shape that a scheme asks for is therefore written to
exactly `signatureSize` bytes (`length_toBytes`) and read back from them (`ofBytes_toBytes`).
-/

namespace OneTimeSig

/-- A string of known width is split off what stands behind it. -/
theorem FixedBytes.split?_append {n : Nat} (b : FixedBytes n) (rest : Bytes) :
    FixedBytes.split? n (b.toList ++ rest) = some (b, rest) := by
  have hlen : n ≤ (b.toList ++ rest).length := by
    rw [List.length_append, b.length_toList]
    omega
  have htake : (b.toList ++ rest).take n = b.toList := List.take_left' b.length_toList
  have hdrop : (b.toList ++ rest).drop n = rest := List.drop_left' b.length_toList
  unfold FixedBytes.split?
  rw [dif_pos hlen, Option.some.injEq, Prod.mk.injEq]
  exact ⟨FixedBytes.ext htake, hdrop⟩

/-- The number of bytes of strings of one width. -/
theorem FixedBytes.length_flatMap_toList {n : Nat} (bs : List (FixedBytes n)) :
    (bs.flatMap FixedBytes.toList).length = bs.length * n := by
  induction bs with
  | nil => simp
  | cons b bs ih =>
    rw [List.flatMap_cons, List.length_append, b.length_toList, ih, List.length_cons,
      Nat.succ_mul, Nat.add_comm]

/-- Strings of one width are told from their bytes in a row when their number is known. -/
theorem FixedBytes.flatMap_toList_inj {n : Nat} {as bs : List (FixedBytes n)}
    (hlen : as.length = bs.length)
    (h : as.flatMap FixedBytes.toList = bs.flatMap FixedBytes.toList) : as = bs := by
  induction as generalizing bs with
  | nil => exact (List.length_eq_zero_iff.mp hlen.symm).symm
  | cons a as ih =>
    obtain ⟨b, bs, rfl⟩ := List.exists_cons_of_length_eq_add_one hlen.symm
    -- The first strings have the same width, so they end in the same place.
    have hwidth : a.toList.length = b.toList.length := by rw [a.length_toList, b.length_toList]
    rw [List.flatMap_cons, List.flatMap_cons] at h
    obtain ⟨hfirst, hrest⟩ := List.append_inj h hwidth
    rw [FixedBytes.ext hfirst, ih (by simpa using hlen) hrest]

namespace DigitProof

/-- Siblings are read back from their bytes. -/
theorem readSiblings_append (siblings : List Hash160) (rest : Bytes) :
    readSiblings siblings.length (siblings.flatMap FixedBytes.toList ++ rest) =
      some (siblings, rest) := by
  induction siblings with
  | nil => rfl
  | cons sibling siblings ih =>
    generalize hmore : siblings.flatMap FixedBytes.toList ++ rest = more at ih
    have hsplit : FixedBytes.split? Params.nodeSize (sibling.toList ++ more) =
        some (sibling, more) := FixedBytes.split?_append sibling more
    rw [List.flatMap_cons, List.append_assoc, hmore, List.length_cons, readSiblings, hsplit]
    -- What is left to read are the other siblings.
    change (readSiblings siblings.length more).bind
      (fun read => some (sibling :: read.1, read.2)) = _
    rw [ih]
    rfl

/-- A proof is read back from its bytes. -/
theorem read_append (p : DigitProof) (rest : Bytes) :
    read p.siblings.length (p.toBytes ++ rest) = some (p, rest) := by
  have hsplit : FixedBytes.split? Params.preimageSize (p.preimage.toList ++ p.control :: rest) =
      some (p.preimage, p.control :: rest) := FixedBytes.split?_append p.preimage _
  unfold read toBytes
  rw [List.append_assoc, List.append_assoc, readSiblings_append, List.singleton_append]
  simp only [Option.bind_eq_bind, Option.bind_some, hsplit]
  rfl

/-- Proofs of one depth are read back from their bytes. -/
theorem readAll_flatMap_toBytes {depth : Nat} {ps : List DigitProof}
    (h : ∀ p ∈ ps, p.siblings.length = depth) :
    readAll depth ps.length (ps.flatMap toBytes) = some ps := by
  induction ps with
  | nil => rfl
  | cons p ps ih =>
    rw [List.forall_mem_cons] at h
    obtain ⟨rfl, hrest⟩ := h
    rw [List.flatMap_cons, List.length_cons, readAll, read_append]
    simp only [Option.bind_eq_bind, Option.bind_some, ih hrest]
    rfl

/-- The number of bytes of a proof. -/
theorem length_toBytes (p : DigitProof) : p.toBytes.length = p.siblings.length * 20 + 17 := by
  unfold toBytes
  rw [List.length_append, List.length_append, FixedBytes.length_flatMap_toList,
    p.preimage.length_toList, List.length_singleton]

/-- The number of bytes of proofs of one depth. -/
theorem length_flatMap_toBytes {depth : Nat} {ps : List DigitProof}
    (h : ∀ p ∈ ps, p.siblings.length = depth) :
    (ps.flatMap toBytes).length = ps.length * (depth * 20 + 17) := by
  induction ps with
  | nil => simp
  | cons p ps ih =>
    rw [List.forall_mem_cons] at h
    rw [List.flatMap_cons, List.length_append, length_toBytes, ih h.2, h.1, List.length_cons,
      Nat.succ_mul, Nat.add_comm]

end DigitProof

namespace Signature

/-- The strings that `hash160` is applied to in order to recover the public key. -/
def inputs (sig : Signature) : List Bytes :=
  sig.proofs.flatMap DigitProof.inputs

/-- The string that `hash256` is applied to in order to recover the public key. -/
def keyInput (sig : Signature) : Bytes :=
  (sig.proofs.map DigitProof.recoverRoot).flatMap FixedBytes.toList

end Signature

namespace Scheme

variable {s : Scheme} {sig : Signature}

/-- The shape is the number of proofs and the number of siblings of each. -/
theorem hasShape_iff :
    s.hasShape sig = true ↔
      sig.proofs.length = s.digits ∧ ∀ p ∈ sig.proofs, p.siblings.length = s.depth := by
  simp [hasShape]

/-- A signature is verified when it has the shape, is of the digest and leads to the key. -/
theorem verify_iff {digest : Bytes} {pk : PublicKey} :
    s.verify digest sig pk = true ↔
      s.hasShape sig = true ∧ sig.digest = digest ∧ sig.recoverPublicKey = pk := by
  simp [verify, and_assoc]

/-- A signature of the shape takes as many bytes as the parameters say. -/
theorem length_toBytes (h : s.hasShape sig = true) :
    sig.toBytes.length = s.params.signatureSize.toNat := by
  obtain ⟨hcount, hsiblings⟩ := hasShape_iff.mp h
  rw [Signature.toBytes, DigitProof.length_flatMap_toBytes hsiblings, hcount,
    s.signatureSize_toNat]

/-- A signature of the shape is read back from its bytes. -/
theorem ofBytes_toBytes (h : s.hasShape sig = true) :
    Signature.ofBytes s.params sig.toBytes = .ok sig := by
  obtain ⟨hcount, hsiblings⟩ := hasShape_iff.mp h
  have hread := DigitProof.readAll_flatMap_toBytes hsiblings
  unfold Signature.ofBytes
  rw [s.ofParams_params, ok_bind, if_neg (not_not.mpr (length_toBytes h)), ← hcount,
    Signature.toBytes, hread]
  rfl

end Scheme

end OneTimeSig
