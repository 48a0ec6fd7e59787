import OneTimeSig.Proofs.Signature

/-!
# The two written forms of a signature

As bytes a signature can only be read back when the reader knows its shape: `ofBytes_eq_ok_iff` says
that the bytes which are read under given parameters are those of the signatures of the shape, and
that each of these is read back as it was. Every byte string of the right size is one of them, since
a string can be cut into parts of known widths (`exists_toBytes_eq`).

As a list of items a signature shows its shape itself. Of the items of a proof only the last has
width 1, and the one before it is the only one of width 16, so what follows a proof can be told from
it (`witness_append_inj`) and no two signatures have the same items (`witness_injective`).
-/

namespace OneTimeSig

/-- A string whose size is a multiple of a width is cut into strings of that width. -/
theorem FixedBytes.exists_flatMap_toList_eq {n count : Nat} {bytes : Bytes}
    (h : bytes.length = count * n) :
    ∃ bs : List (FixedBytes n), bs.length = count ∧ bs.flatMap FixedBytes.toList = bytes := by
  induction count generalizing bytes with
  | zero =>
    rw [Nat.zero_mul, List.length_eq_zero_iff] at h
    exact ⟨[], rfl, h.symm⟩
  | succ count ih =>
    rw [Nat.succ_mul] at h
    have htake : (bytes.take n).length = n := by
      rw [List.length_take]
      omega
    have hdrop : (bytes.drop n).length = count * n := by
      rw [List.length_drop]
      omega
    obtain ⟨bs, hlen, hbs⟩ := ih hdrop
    refine ⟨⟨bytes.take n, htake⟩ :: bs, by rw [List.length_cons, hlen], ?_⟩
    rw [List.flatMap_cons, hbs]
    exact List.take_append_drop n bytes

namespace DigitProof

/-- A string of the size of a proof is the bytes of one. -/
theorem exists_toBytes_eq {depth : Nat} {bytes : Bytes} (h : bytes.length = depth * 20 + 17) :
    ∃ p : DigitProof, p.siblings.length = depth ∧ p.toBytes = bytes := by
  have hpath : (bytes.take (depth * 20)).length = depth * 20 := by
    rw [List.length_take]
    omega
  obtain ⟨siblings, hlen, hsiblings⟩ := FixedBytes.exists_flatMap_toList_eq hpath
  -- Behind the siblings there are 17 bytes, of which the last is the control byte.
  have hback : (bytes.drop (depth * 20)).length = 17 := by
    rw [List.length_drop]
    omega
  rcases List.eq_nil_or_concat' (bytes.drop (depth * 20)) with hnil | ⟨preimage, control, hrest⟩
  · rw [hnil, List.length_nil] at hback
    omega
  rw [hrest, List.length_append, List.length_singleton] at hback
  have hwidth : preimage.length = 16 := by omega
  refine ⟨⟨siblings, ⟨preimage, hwidth⟩, control⟩, hlen, ?_⟩
  rw [toBytes, hsiblings, List.append_assoc, ← hrest]
  exact List.take_append_drop _ bytes

/-- A string of the size of so many proofs is the bytes of them. -/
theorem exists_flatMap_toBytes_eq {depth count : Nat} {bytes : Bytes}
    (h : bytes.length = count * (depth * 20 + 17)) :
    ∃ ps : List DigitProof, ps.length = count ∧ (∀ p ∈ ps, p.siblings.length = depth) ∧
      ps.flatMap toBytes = bytes := by
  induction count generalizing bytes with
  | zero =>
    rw [Nat.zero_mul, List.length_eq_zero_iff] at h
    exact ⟨[], rfl, by simp, h.symm⟩
  | succ count ih =>
    rw [Nat.succ_mul] at h
    have htake : (bytes.take (depth * 20 + 17)).length = depth * 20 + 17 := by
      rw [List.length_take]
      omega
    have hdrop : (bytes.drop (depth * 20 + 17)).length = count * (depth * 20 + 17) := by
      rw [List.length_drop]
      omega
    obtain ⟨p, hp, hbytes⟩ := exists_toBytes_eq htake
    obtain ⟨ps, hlen, hps, hrest⟩ := ih hdrop
    refine ⟨p :: ps, by rw [List.length_cons, hlen], List.forall_mem_cons.mpr ⟨hp, hps⟩, ?_⟩
    rw [List.flatMap_cons, hbytes, hrest, List.take_append_drop]

/-- Siblings and a preimage in front of other items are told from them by their widths. -/
theorem items_append_inj {xs ys : List Hash160} {x y : Preimage} {rest rest' : List Bytes}
    (h : xs.map FixedBytes.toList ++ x.toList :: rest =
      ys.map FixedBytes.toList ++ y.toList :: rest') : xs = ys ∧ x = y ∧ rest = rest' := by
  have hwidth : ∀ (node : Hash160) (preimage : Preimage), node.toList ≠ preimage.toList := by
    intro node preimage heq
    have hlen := congrArg List.length heq
    rw [node.length_toList, preimage.length_toList] at hlen
    omega
  induction xs generalizing ys with
  | nil =>
    cases ys with
    | nil =>
      obtain ⟨hpreimage, hrest⟩ := List.cons_eq_cons.mp h
      exact ⟨rfl, FixedBytes.ext hpreimage, hrest⟩
    | cons node ys => exact absurd (List.cons_eq_cons.mp h).1.symm (hwidth node x)
  | cons node xs ih =>
    cases ys with
    | nil => exact absurd (List.cons_eq_cons.mp h).1 (hwidth node y)
    | cons node' ys =>
      obtain ⟨hnode, htail⟩ := List.cons_eq_cons.mp h
      obtain ⟨rfl, hpreimage, hrest⟩ := ih htail
      exact ⟨by rw [FixedBytes.ext hnode], hpreimage, hrest⟩

/-- The items of a proof are told from what stands behind them. -/
theorem witness_append_inj {p q : DigitProof} {rest rest' : List Bytes}
    (h : p.witness ++ rest = q.witness ++ rest') : p = q ∧ rest = rest' := by
  unfold witness at h
  rw [List.append_assoc, List.append_assoc] at h
  obtain ⟨hsiblings, hpreimage, hback⟩ := items_append_inj h
  obtain ⟨hcontrol, hrest⟩ := List.cons_eq_cons.mp hback
  refine ⟨?_, hrest⟩
  obtain ⟨siblings, preimage, control⟩ := p
  obtain ⟨siblings', preimage', control'⟩ := q
  rw [DigitProof.mk.injEq]
  exact ⟨hsiblings, hpreimage, List.head_eq_of_cons_eq hcontrol⟩

/-- The items of a proof write its bytes. -/
theorem flatten_witness (p : DigitProof) : p.witness.flatten = p.toBytes := by
  simp [witness, toBytes, List.flatMap_def]

/-- Proofs are told from their items in a row. -/
theorem flatMap_witness_inj {ps qs : List DigitProof}
    (h : ps.flatMap witness = qs.flatMap witness) : ps = qs := by
  have hne : ∀ (p : DigitProof) (rest : List Bytes), p.witness ++ rest ≠ [] := by
    intro p rest hnil
    simp [witness] at hnil
  induction ps generalizing qs with
  | nil =>
    cases qs with
    | nil => rfl
    | cons q qs => exact absurd h.symm (hne q _)
  | cons p ps ih =>
    cases qs with
    | nil => exact absurd h (hne p _)
    | cons q qs =>
      obtain ⟨rfl, hrest⟩ := witness_append_inj h
      rw [ih hrest]

end DigitProof

namespace Signature

/-- The items of a signature write its bytes. -/
theorem flatten_witness (sig : Signature) : sig.witness.flatten = sig.toBytes := by
  unfold witness toBytes
  induction sig.proofs with
  | nil => rfl
  | cons p ps ih =>
    rw [List.flatMap_cons, List.flatMap_cons, List.flatten_append, ih, p.flatten_witness]

/-- No two signatures have the same items. -/
theorem witness_injective : Function.Injective witness := by
  rintro ⟨ps⟩ ⟨qs⟩ h
  rw [Signature.mk.injEq]
  exact DigitProof.flatMap_witness_inj h

end Signature

namespace Scheme

variable {s : Scheme} {sig : Signature} {bytes : Bytes}

/-- Every string of the size that the parameters say is the bytes of a signature of the shape. -/
theorem exists_toBytes_eq (h : bytes.length = s.params.signatureSize.toNat) :
    ∃ sig : Signature, s.hasShape sig = true ∧ sig.toBytes = bytes := by
  rw [s.signatureSize_toNat] at h
  obtain ⟨ps, hlen, hsiblings, hbytes⟩ := DigitProof.exists_flatMap_toBytes_eq h
  exact ⟨⟨ps⟩, hasShape_iff.mpr ⟨hlen, hsiblings⟩, hbytes⟩

/-- A string of another size is refused for its size. -/
theorem ofBytes_of_length_ne (h : bytes.length ≠ s.params.signatureSize.toNat) :
    Signature.ofBytes s.params bytes =
      .error (.signatureSize s.params.signatureSize.toNat bytes.length) := by
  unfold Signature.ofBytes
  rw [s.ofParams_params, ok_bind, if_pos h]
  rfl

/-- What is read is a signature of the shape, and what was written for it. -/
theorem ofBytes_eq_ok_iff :
    Signature.ofBytes s.params bytes = .ok sig ↔ s.hasShape sig = true ∧ sig.toBytes = bytes := by
  constructor
  · intro h
    rcases eq_or_ne bytes.length s.params.signatureSize.toNat with hsize | hsize
    · -- The string is the bytes of some signature of the shape, which is the one that is read.
      obtain ⟨sig', hshape, rfl⟩ := exists_toBytes_eq hsize
      rw [ofBytes_toBytes hshape] at h
      obtain rfl := Except.ok.inj h
      exact ⟨hshape, rfl⟩
    · rw [ofBytes_of_length_ne hsize] at h
      nomatch h
  · rintro ⟨hshape, rfl⟩
    exact ofBytes_toBytes hshape

/-- Under the parameters of a scheme the byte strings of the size of a signature are exactly what is
written for the signatures of the shape, and every other string is refused for its format. A
signature of another shape is not read back from its bytes. The items of any signature, on the other
hand, write its bytes and belong to no other signature, whatever its shape. -/
theorem toBytes_bijective (s : Scheme) :
    (∀ bytes,
      if bytes.length = s.params.signatureSize.toNat then
        ∃ sig, Signature.ofBytes s.params bytes = .ok sig ∧ sig.proofs.length = s.digits ∧
          (∀ p ∈ sig.proofs, p.siblings.length = s.depth) ∧ sig.toBytes = bytes
      else
        ∃ e, Signature.ofBytes s.params bytes = .error e ∧ e.kind = .format ∧
          e = .signatureSize s.params.signatureSize.toNat bytes.length) ∧
      (∀ sig, Signature.ofBytes s.params sig.toBytes = .ok sig ↔
        sig.proofs.length = s.digits ∧ ∀ p ∈ sig.proofs, p.siblings.length = s.depth) ∧
      (∀ sig : Signature, sig.witness.flatten = sig.toBytes) ∧
      Function.Injective Signature.witness := by
  refine ⟨fun bytes => ?_, fun sig => ?_, Signature.flatten_witness, Signature.witness_injective⟩
  · split_ifs with hsize
    · obtain ⟨sig, hshape, hbytes⟩ := exists_toBytes_eq hsize
      obtain ⟨hcount, hsiblings⟩ := hasShape_iff.mp hshape
      exact ⟨sig, ofBytes_eq_ok_iff.mpr ⟨hshape, hbytes⟩, hcount, hsiblings, hbytes⟩
    · exact ⟨_, ofBytes_of_length_ne hsize, rfl, rfl⟩
  · rw [ofBytes_eq_ok_iff, hasShape_iff]
    exact and_iff_left rfl

/-- The bytes of 21 proofs without siblings are those of one proof with 17, while the items differ. -/
theorem toBytes_bijective_smallest :
    ∃ sig wide narrow : Signature,
      Signature.ofBytes smallest.params (List.replicate 37 0) = .ok sig ∧
        Signature.ofBytes smallest.params sig.toBytes = .ok sig ∧
        wide.toBytes = narrow.toBytes ∧ wide.witness ≠ narrow.witness := by
  obtain ⟨hread, hwrite, -, hinjective⟩ := toBytes_bijective smallest
  have hzeros := hread (List.replicate 37 0)
  rw [if_pos (by decide)] at hzeros
  obtain ⟨sig, hsig, hcount, hsiblings, -⟩ := hzeros
  refine ⟨sig, ⟨List.replicate 21 ⟨[], FixedBytes.ofNat 16 0, 0⟩⟩,
    ⟨[⟨List.replicate 17 (FixedBytes.ofNat 20 0), FixedBytes.ofNat 16 0, 0⟩]⟩, hsig,
    (hwrite sig).mpr ⟨hcount, hsiblings⟩, by decide +kernel, hinjective.ne ?_⟩
  intro heq
  have hproofs := congrArg (fun sig => sig.proofs.length) heq
  simp at hproofs

end Scheme

end OneTimeSig
