import OneTimeSig.Proofs.Script.Acceptance
import OneTimeSig.Signature

/-!
# Which parameters make a scheme

Of all pairs of words, those with at least one digit, a power of two from 2 to 256 as the number of
leaves and a signature whose size fits a word make a scheme (`MakesScheme`). Any other pair has a
first fault in the order of the tests (`FirstFault`). One of the two is the case
(`makesScheme_or_firstFault`): the test passes in the former (`MakesScheme.check_eq`) and gives the
fault in the latter (`FirstFault.check_eq`), and all that is made from parameters ends as the test
does. `check_outcome` puts this together.
-/

namespace OneTimeSig.Params

variable {p : Params} {k : Nat} {kind : ErrorKind} {e : Error}

/-- The parameters make a scheme whose trees have `k` levels below their roots. -/
structure MakesScheme (p : Params) (k : Nat) : Prop where
  /-- There is a digit. -/
  digits_pos : 1 ≤ p.digits.toNat
  /-- A leaf is not the root. -/
  one_le : 1 ≤ k
  /-- A byte addresses every leaf. -/
  le_eight : k ≤ 8
  /-- The trees are complete. -/
  leafCount_eq : p.leafCount.toNat = 2 ^ k
  /-- The number of bytes of a signature fits a word. -/
  size_lt : p.digits.toNat * (20 * k + 17) < 2 ^ 64

/-- The first fault of parameters that make no scheme, in the order in which faults count, with its
kind. -/
inductive FirstFault (p : Params) : ErrorKind → Error → Prop
  /-- There is no digit. -/
  | noDigits (hdigits : p.digits.toNat = 0) : FirstFault p .precondition .noDigits
  /-- The number of leaves is no power of two, or there are fewer than two. -/
  | leafCountShape (hdigits : 1 ≤ p.digits.toNat)
    (hleaves : (∀ k, p.leafCount.toNat ≠ 2 ^ k) ∨ p.leafCount.toNat < 2) :
    FirstFault p .structuralInvariant (.leafCountShape p.leafCount.toNat)
  /-- There are more leaves than a byte addresses. -/
  | leafCountTooLarge {k : Nat} (hdigits : 1 ≤ p.digits.toNat) (hleaves : p.leafCount.toNat = 2 ^ k)
    (hlarge : 256 < p.leafCount.toNat) :
    FirstFault p .precondition (.leafCountTooLarge p.leafCount.toNat)
  /-- The number of bytes of a signature does not fit a word. -/
  | tooManyDigits {k : Nat} (hdigits : 1 ≤ p.digits.toNat) (hlow : 1 ≤ k) (hhigh : k ≤ 8)
    (hleaves : p.leafCount.toNat = 2 ^ k) (hsize : 2 ^ 64 ≤ p.digits.toNat * (20 * k + 17)) :
    FirstFault p .precondition (.tooManyDigits p.digits.toNat)

/-! ## The test -/

/-- In a tree with so many leaves the path of a leaf has this many nodes. -/
theorem depth_eq_of_leafCount (hk : k ≤ 8) (hleaves : p.leafCount.toNat = 2 ^ k) : p.depth = k := by
  rw [depth, hleaves]
  exact trailingZeros_two_pow (by omega)

/-- The size of a proof in a tree of this depth. -/
theorem proofSize_eq_of_leafCount (hk : k ≤ 8) (hleaves : p.leafCount.toNat = 2 ^ k) :
    p.proofSize = 20 * k + 17 := by
  have hproof : p.proofSize = p.depth * 20 + 17 := rfl
  rw [hproof, depth_eq_of_leafCount hk hleaves, Nat.mul_comm]

/-- Parameters that pass the test make a scheme. -/
theorem makesScheme_of_check (h : p.check = .ok ()) : p.MakesScheme p.depth := by
  obtain ⟨hdigits, hlow, hhigh, hleaves, hsize⟩ := check_eq_ok h
  rw [proofSize_eq_of_leafCount hhigh hleaves] at hsize
  exact ⟨hdigits, hlow, hhigh, hleaves, hsize⟩

/-- Parameters that fail the test do so for their first fault. -/
theorem firstFault_of_check (h : p.check = .error e) : p.FirstFault e.kind e := by
  unfold check at h
  dsimp only at h
  split_ifs at h with hdigits hshape hlarge hsize <;> obtain rfl := Except.error.inj h
  · exact .noDigits (congrArg UInt64.toNat hdigits)
  · exact .leafCountShape (digits_ne_zero_iff.mp hdigits) (not_isPowerOfTwo_or_lt_iff.mp hshape)
  · obtain ⟨⟨k, hleaves⟩, -⟩ := isPowerOfTwo_and_le_iff.mp hshape
    exact .leafCountTooLarge (digits_ne_zero_iff.mp hdigits) hleaves hlarge
  · obtain ⟨⟨k, hleaves⟩, htwo⟩ := isPowerOfTwo_and_le_iff.mp hshape
    obtain ⟨hlow, hhigh⟩ : 1 ≤ k ∧ k ≤ 8 := two_pow_mem_iff.mp (hleaves ▸ ⟨htwo, not_lt.mp hlarge⟩)
    rw [proofSize_eq_of_leafCount hhigh hleaves] at hsize
    exact .tooManyDigits (digits_ne_zero_iff.mp hdigits) hlow hhigh hleaves hsize

/-- Parameters that make a scheme have no fault. -/
theorem MakesScheme.not_firstFault (h : p.MakesScheme k) : ¬ p.FirstFault kind e := by
  have hsize := h.size_lt
  obtain ⟨htwo, hle⟩ : 2 ≤ p.leafCount.toNat ∧ p.leafCount.toNat ≤ 256 :=
    h.leafCount_eq ▸ two_pow_mem_iff.mpr ⟨h.one_le, h.le_eight⟩
  intro hfault
  cases hfault with
  | noDigits hdigits => exact absurd hdigits (Nat.one_le_iff_ne_zero.mp h.digits_pos)
  | leafCountShape hdigits hleaves =>
    rcases hleaves with hpow | hlt
    · exact hpow k h.leafCount_eq
    · exact absurd htwo (not_le.mpr hlt)
  | leafCountTooLarge hdigits hleaves hlarge => exact absurd hle (not_le.mpr hlarge)
  | tooManyDigits hdigits hlow hhigh hleaves hlarge =>
    obtain rfl := Nat.pow_right_injective (Nat.le_refl 2) (h.leafCount_eq.symm.trans hleaves)
    exact absurd hsize (not_lt.mpr hlarge)

/-- Parameters that make a scheme pass the test. -/
theorem MakesScheme.check_eq (h : p.MakesScheme k) : p.check = .ok () := by
  cases hcheck : p.check with
  | ok _ => rfl
  | error e => exact absurd (firstFault_of_check hcheck) h.not_firstFault

/-- The first fault of parameters is the one that the test gives. -/
theorem FirstFault.check_eq (h : p.FirstFault kind e) : p.check = .error e := by
  unfold check
  dsimp only
  cases h with
  | noDigits hdigits =>
    have hzero : p.digits = 0 := UInt64.toNat_inj.mp hdigits
    rw [if_pos hzero]
  | leafCountShape hdigits hleaves =>
    rw [if_neg (digits_ne_zero_iff.mpr hdigits), if_pos (not_isPowerOfTwo_or_lt_iff.mpr hleaves)]
  | leafCountTooLarge hdigits hleaves hlarge =>
    have hshape := isPowerOfTwo_and_le_iff.mpr ⟨⟨_, hleaves⟩, by omega⟩
    rw [if_neg (digits_ne_zero_iff.mpr hdigits), if_neg hshape,
      if_pos (show maxLeafCount < _ from hlarge)]
  | tooManyDigits hdigits hlow hhigh hleaves hsize =>
    obtain ⟨htwo, hle⟩ := two_pow_mem_iff.mpr ⟨hlow, hhigh⟩
    rw [← hleaves] at htwo hle
    have hshape := isPowerOfTwo_and_le_iff.mpr ⟨⟨_, hleaves⟩, htwo⟩
    rw [← proofSize_eq_of_leafCount hhigh hleaves] at hsize
    rw [if_neg (digits_ne_zero_iff.mpr hdigits), if_neg hshape,
      if_neg (show ¬ maxLeafCount < _ from not_lt.mpr hle), if_pos (show UInt64.size ≤ _ from hsize)]

/-- Parameters make a scheme or have a first fault. -/
theorem makesScheme_or_firstFault (p : Params) :
    (∃ k, p.MakesScheme k) ∨ ∃ e, p.FirstFault e.kind e := by
  cases hcheck : p.check with
  | ok _ => exact .inl ⟨_, makesScheme_of_check hcheck⟩
  | error e => exact .inr ⟨e, firstFault_of_check hcheck⟩

/-! ## What is made from parameters -/

/-- No scheme is made from parameters that fail the test. -/
theorem ofParams_of_check (h : p.check = .error e) : Scheme.ofParams p = .error e := by
  unfold Scheme.ofParams
  split
  next hok => nomatch hok.symm.trans h
  next e' herror => rw [Except.error.inj (herror.symm.trans h)]

/-- Neither is a verifier program. -/
theorem compile_of_check (h : p.check = .error e) : Script.Verifier.compile p = .error e := by
  rw [Script.Verifier.compile, ofParams_of_check h, error_bind]

/-- Neither is a signature, whatever the bytes are. -/
theorem ofBytes_of_check (h : p.check = .error e) (bytes : Bytes) :
    Signature.ofBytes p bytes = .error e := by
  rw [Signature.ofBytes, ofParams_of_check h, error_bind]

namespace MakesScheme

variable (h : p.MakesScheme k)
include h

/-- The trees have the depth `k`. -/
theorem depth_eq : p.depth = k := depth_eq_of_leafCount h.le_eight h.leafCount_eq

/-- There is a scheme of the parameters. -/
theorem exists_scheme : ∃ s, Scheme.ofParams p = .ok s ∧ s.params = p :=
  ⟨⟨p, h.check_eq⟩, Scheme.ofParams_params ⟨p, h.check_eq⟩, rfl⟩

/-- The size of a signature is the product of its parts. -/
theorem signatureSize_eq : p.signatureSize.toNat = p.digits.toNat * (20 * k + 17) :=
  calc p.signatureSize.toNat
    _ = p.digits.toNat * (p.depth * 20 + 17) := Scheme.signatureSize_toNat ⟨p, h.check_eq⟩
    _ = p.digits.toNat * (20 * k + 17) := by rw [h.depth_eq, Nat.mul_comm k]

/-- There is a verifier program of the parameters. -/
theorem compile_eq :
    Script.Verifier.compile p = .ok (Script.Verifier.program p.digits.toNat k) :=
  calc Script.Verifier.compile p
    _ = .ok (Script.Verifier.program p.digits.toNat p.depth) :=
      Script.Verifier.compile_params ⟨p, h.check_eq⟩
    _ = .ok (Script.Verifier.program p.digits.toNat k) := by rw [h.depth_eq]

end MakesScheme

/-- No tree is too deep for the program of parameters that pass the test. -/
theorem compile_ne_treeTooDeep (p : Params) (depth limit : Nat) :
    Script.Verifier.compile p ≠ .error (.treeTooDeep depth limit) := by
  intro hcompile
  rcases makesScheme_or_firstFault p with ⟨k, hk⟩ | ⟨e, he⟩
  · rw [hk.compile_eq] at hcompile
    nomatch hcompile
  · rw [compile_of_check he.check_eq] at hcompile
    obtain rfl := Except.error.inj hcompile
    nomatch he

/-- All that is made from parameters tests them first, and the test is exact. It passes for at least
one digit, `2 ^ k` leaves with `k` from 1 to 8 and a signature whose size fits a word: the trees then
have the depth `k`, the size of a signature is the product of its parts, and there are a scheme and
its verifier program, for which no tree is too deep. All other parameters are refused with their
first fault, which is the same for the scheme, the program and the reading of any bytes. -/
theorem check_outcome (p : Params) :
    p.proofSize < 2 ^ 64 ∧
    ((∃ s, Scheme.ofParams p = .ok s) ↔ ∃ k, p.MakesScheme k) ∧
    (∀ k, p.MakesScheme k →
      p.check = .ok () ∧ p.depth = k ∧ 2 ^ p.depth = p.leafCount.toNat ∧
        p.signatureSize.toNat = p.digits.toNat * (20 * k + 17) ∧
        (∃ s, Scheme.ofParams p = .ok s ∧ s.params = p) ∧
        Script.Verifier.compile p = .ok (Script.Verifier.program p.digits.toNat k)) ∧
    ((¬ ∃ k, p.MakesScheme k) → ∃ e, p.FirstFault e.kind e) ∧
    (∀ kind e, p.FirstFault kind e →
      e.kind = kind ∧ p.check = .error e ∧ Scheme.ofParams p = .error e ∧
        Script.Verifier.compile p = .error e ∧ ∀ bytes, Signature.ofBytes p bytes = .error e) ∧
    ∀ depth limit, Script.Verifier.compile p ≠ .error (.treeTooDeep depth limit) := by
  refine ⟨p.proofSize_lt, ⟨?_, ?_⟩, fun k hk => ?_, ?_, fun kind e he => ?_,
    compile_ne_treeTooDeep p⟩
  · rintro ⟨s, hs⟩
    cases hcheck : p.check with
    | ok _ => exact ⟨p.depth, makesScheme_of_check hcheck⟩
    | error e => nomatch hs.symm.trans (ofParams_of_check hcheck)
  · rintro ⟨k, hk⟩
    obtain ⟨s, hs, -⟩ := hk.exists_scheme
    exact ⟨s, hs⟩
  · have hleaves : 2 ^ p.depth = p.leafCount.toNat := by rw [hk.depth_eq, hk.leafCount_eq]
    exact ⟨hk.check_eq, hk.depth_eq, hleaves, hk.signatureSize_eq, hk.exists_scheme, hk.compile_eq⟩
  · intro hnone
    exact (makesScheme_or_firstFault p).resolve_left hnone
  · have hcheck := he.check_eq
    have hkind : e.kind = kind := by cases he <;> rfl
    exact ⟨hkind, hcheck, ofParams_of_check hcheck, compile_of_check hcheck,
      ofBytes_of_check hcheck⟩

/-- With 256 leaves there may be 104218893071805376 digits, and one more is too many. Without digits
it does not matter that three leaves make no tree. -/
theorem check_outcome_largest :
    (Params.signatureSize ⟨104218893071805376, 256⟩).toNat = 2 ^ 64 - 64 ∧
      (∃ s, Scheme.ofParams ⟨104218893071805376, 256⟩ = .ok s) ∧
      Scheme.ofParams ⟨104218893071805377, 256⟩ = .error (.tooManyDigits 104218893071805377) ∧
      Script.Verifier.compile ⟨0, 3⟩ = .error .noDigits ∧
      Signature.ofBytes ⟨0, 3⟩ [] = .error .noDigits := by
  have hlargest : MakesScheme ⟨104218893071805376, 256⟩ 8 :=
    ⟨by decide, by decide, by decide, rfl, by decide⟩
  have hmore : FirstFault ⟨104218893071805377, 256⟩ .precondition
      (.tooManyDigits 104218893071805377) :=
    .tooManyDigits (k := 8) (by decide) (by decide) (by decide) rfl (by decide)
  have hnone : FirstFault ⟨0, 3⟩ .precondition .noDigits := .noDigits rfl
  obtain ⟨-, -, hmakes, -⟩ := check_outcome ⟨104218893071805376, 256⟩
  obtain ⟨-, -, -, -, hrefuses, -⟩ := check_outcome ⟨104218893071805377, 256⟩
  obtain ⟨-, -, -, -, hrefuses', -⟩ := check_outcome ⟨0, 3⟩
  obtain ⟨-, -, -, hsize, ⟨s, hs, -⟩, -⟩ := hmakes 8 hlargest
  obtain ⟨-, -, hscheme, -⟩ := hrefuses _ _ hmore
  obtain ⟨-, -, -, hprogram, hbytes⟩ := hrefuses' _ _ hnone
  exact ⟨hsize, ⟨s, hs⟩, hscheme, hprogram, hbytes []⟩

end OneTimeSig.Params
