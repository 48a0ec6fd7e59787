import Mathlib.Tactic.Linarith
import OneTimeSig.Script.Number

/-!
# Every number has one written form

`Number.encode` writes the magnitude byte by byte and then finds room for the sign; `Number.decode`
refuses long strings and strings that waste their last byte, and reads the rest. The two are
inverse: `value_encode` reads back what was written, `encode_value` writes back what was read from
a minimal string, and `decode_eq_ok_iff` puts both together with the limit of four bytes, which
`length_encode_le_four_iff` turns into a limit on the number.

The proofs follow the width of the magnitude. `signed` is the common form of what is written, and
`width_induction` the induction along it: a magnitude that leaves the top bit of its only byte free,
one that fills the byte, and one that has a lowest byte in front of a smaller magnitude.
-/

namespace OneTimeSig.Script.Number

/-! ## Single bytes -/

/-- The magnitude bits of a byte are its remainder by 128. -/
theorem toNat_and_magnitude (b : UInt8) : (b &&& 0x7f).toNat = b.toNat % 128 := by
  rw [UInt8.toNat_and]
  exact Nat.and_two_pow_sub_one_eq_mod b.toNat 7

/-- A byte has magnitude bits when its remainder by 128 is not zero. -/
theorem and_magnitude_ne_zero_iff (b : UInt8) : b &&& 0x7f ≠ 0 ↔ b.toNat % 128 ≠ 0 := by
  rw [← toNat_and_magnitude, ne_eq, ne_eq, ← UInt8.toNat_inj]
  rfl

/-- The sign bit of a byte is set when the byte is at least 128. -/
theorem and_signBit_ne_zero_iff (b : UInt8) : b &&& signBit ≠ 0 ↔ 128 ≤ b.toNat := by
  -- There are only 256 bytes, and the kernel looks at each of them.
  have hbits : ∀ n < 256, n &&& 128 = 0 ↔ n < 128 := by decide +kernel
  have h := hbits b.toNat b.toNat_lt
  rw [ne_eq, ← UInt8.toNat_inj, UInt8.toNat_and, show signBit.toNat = 128 from rfl,
    show (0 : UInt8).toNat = 0 from rfl, h]
  omega

/-- Setting the sign bit adds 128 to a byte that leaves it free. -/
theorem toNat_or_signBit (b : UInt8) (h : b.toNat < 128) : (b ||| signBit).toNat = b.toNat + 128 := by
  have hbits : ∀ n < 128, n ||| 128 = n + 128 := by decide +kernel
  rw [UInt8.toNat_or, show signBit.toNat = 128 from rfl]
  exact hbits b.toNat h

/-- A number below 256 is the value of its byte. -/
theorem toNat_ofNat {n : Nat} (h : n < 256) : (UInt8.ofNat n).toNat = n :=
  UInt8.toNat_ofNat_of_lt' h

/-! ## The last byte decides -/

/-- A byte in front of others counts for itself and moves them up. -/
theorem magnitude_cons (b : UInt8) {rest : Bytes} (h : rest ≠ []) :
    magnitude (b :: rest) = b.toNat + 256 * magnitude rest := by
  cases rest with
  | nil => exact absurd rfl h
  | cons _ _ => rfl

/-- A byte in front of others does not touch the sign. -/
theorem isNegative_cons (b : UInt8) {rest : Bytes} (h : rest ≠ []) :
    isNegative (b :: rest) = isNegative rest := by
  cases rest with
  | nil => exact absurd rfl h
  | cons _ _ => rfl

/-- A byte in front of a minimal string leaves it minimal. -/
theorem isMinimal_cons (b : UInt8) {rest : Bytes} (h : rest ≠ []) (hm : isMinimal rest = true) :
    isMinimal (b :: rest) = true := by
  match rest with
  | [] => exact absurd rfl h
  | [last] =>
    -- The last byte has magnitude bits, so nothing is asked of the byte below it.
    simp only [isMinimal] at hm ⊢
    simp [hm]
  | _ :: _ :: _ => exact hm

/-! ## What is written -/

/-- The bytes of a magnitude with its sign. -/
def signed (negative : Bool) (n : Nat) : Bytes :=
  withSign negative (littleEndian n)

theorem encode_eq_signed (n : Int) : encode n = signed (n < 0) n.natAbs := rfl

@[simp]
theorem signed_zero (negative : Bool) : signed negative 0 = [] := by
  simp [signed, littleEndian, withSign]

/-- Only zero is written by the empty string. -/
theorem littleEndian_ne_nil {n : Nat} (h : 0 < n) : littleEndian n ≠ [] := by
  rw [littleEndian, if_neg (by omega)]
  exact List.cons_ne_nil _ _

/-- A magnitude below 128 takes one byte and leaves its top bit to the sign. -/
theorem signed_of_lt (negative : Bool) {n : Nat} (hpos : 0 < n) (hlt : n < 128) :
    signed negative n = [UInt8.ofNat (if negative then n + 128 else n)] := by
  have hbyte : (UInt8.ofNat n).toNat = n := toNat_ofNat (by omega)
  have hfree : ¬ (UInt8.ofNat n &&& signBit ≠ 0) := by
    rw [and_signBit_ne_zero_iff, hbyte]
    omega
  have hle : littleEndian n = [UInt8.ofNat n] := by
    rw [littleEndian, if_neg (by omega), show n % 256 = n by omega, show n / 256 = 0 by omega,
      littleEndian, if_pos rfl]
  rw [signed, hle, withSign, if_neg hfree]
  cases negative with
  | false => rfl
  | true =>
    have hor : UInt8.ofNat n ||| signBit = UInt8.ofNat (n + 128) := by
      rw [← UInt8.toNat_inj, toNat_or_signBit _ (by omega), hbyte, toNat_ofNat (by omega)]
    simp [hor]

/-- A magnitude that fills one byte leaves the sign to a second one. -/
theorem signed_of_fills (negative : Bool) {n : Nat} (hge : 128 ≤ n) (hlt : n < 256) :
    signed negative n = [UInt8.ofNat n, if negative then signBit else 0] := by
  have hfull : UInt8.ofNat n &&& signBit ≠ 0 := by
    rw [and_signBit_ne_zero_iff, toNat_ofNat hlt]
    exact hge
  have hle : littleEndian n = [UInt8.ofNat n] := by
    rw [littleEndian, if_neg (by omega), show n % 256 = n by omega, show n / 256 = 0 by omega,
      littleEndian, if_pos rfl]
  rw [signed, hle, withSign, if_pos hfull]

/-- A larger magnitude is written with its lowest byte in front of the rest. -/
theorem signed_of_ge (negative : Bool) {n : Nat} (hge : 256 ≤ n) :
    signed negative n = UInt8.ofNat (n % 256) :: signed negative (n / 256) := by
  have hne : littleEndian (n / 256) ≠ [] := littleEndian_ne_nil (by omega)
  rw [signed, signed, littleEndian, if_neg (by omega)]
  cases hrest : littleEndian (n / 256) with
  | nil => exact absurd hrest hne
  | cons _ _ => rfl

/-- Putting a byte in front of a magnitude that is not zero. -/
theorem signed_cons (negative : Bool) (b : UInt8) {n : Nat} (h : 0 < n) :
    signed negative (b.toNat + 256 * n) = b :: signed negative n := by
  have hb := b.toNat_lt
  rw [signed_of_ge negative (by omega), show (b.toNat + 256 * n) % 256 = b.toNat by omega,
    show (b.toNat + 256 * n) / 256 = n by omega, UInt8.ofNat_toNat]

/-- Induction along the width of a magnitude. -/
@[elab_as_elim]
theorem width_induction {P : (n : Nat) → 0 < n → Prop}
    (small : ∀ n (h : 0 < n), n < 128 → P n h)
    (fills : ∀ n (h : 128 ≤ n), n < 256 → P n (by omega))
    (wider : ∀ n (h : 256 ≤ n), P (n / 256) (by omega) → P n (by omega))
    (n : Nat) (h : 0 < n) : P n h := by
  -- Without its lowest byte a magnitude is smaller, and from 256 on it is not zero.
  induction n using Nat.strong_induction_on with
  | _ n ih =>
    rcases Nat.lt_or_ge n 128 with h128 | h128
    · exact small n h h128
    · rcases Nat.lt_or_ge n 256 with h256 | h256
      · exact fills n h128 h256
      · exact wider n h256 (ih (n / 256) (by omega) (by omega))

/-- A magnitude other than zero is written by some bytes. -/
theorem signed_ne_nil (negative : Bool) {n : Nat} (h : 0 < n) : signed negative n ≠ [] := by
  induction n, h using width_induction with
  | small n hpos hlt => simp [signed_of_lt negative hpos hlt]
  | fills n hge hlt => simp [signed_of_fills negative hge hlt]
  | wider n hge _ => simp [signed_of_ge negative hge]

/-- The magnitude is read back. -/
theorem magnitude_signed (negative : Bool) {n : Nat} (h : 0 < n) :
    magnitude (signed negative n) = n := by
  induction n, h using width_induction with
  | small n hpos hlt =>
    rw [signed_of_lt negative hpos hlt, magnitude, toNat_and_magnitude]
    split_ifs
    · rw [toNat_ofNat (by omega)]
      omega
    · rw [toNat_ofNat (by omega)]
      omega
  | fills n hge hlt =>
    rw [signed_of_fills negative hge hlt, magnitude_cons _ (List.cons_ne_nil _ _),
      toNat_ofNat hlt]
    cases negative <;> rfl
  | wider n hge ih =>
    rw [signed_of_ge negative hge, magnitude_cons _ (signed_ne_nil negative (by omega)), ih,
      toNat_ofNat (by omega)]
    omega

/-- The sign is read back. -/
theorem isNegative_signed (negative : Bool) {n : Nat} (h : 0 < n) :
    isNegative (signed negative n) = negative := by
  induction n, h using width_induction with
  | small n hpos hlt =>
    rw [signed_of_lt negative hpos hlt, isNegative]
    cases negative with
    | false =>
      rw [if_neg (by decide), decide_eq_false_iff_not, and_signBit_ne_zero_iff,
        toNat_ofNat (by omega)]
      omega
    | true =>
      rw [if_pos rfl, decide_eq_true_eq, and_signBit_ne_zero_iff, toNat_ofNat (by omega)]
      omega
  | fills n hge hlt =>
    rw [signed_of_fills negative hge hlt, isNegative_cons _ (List.cons_ne_nil _ _)]
    cases negative <;> rfl
  | wider n hge ih =>
    rw [signed_of_ge negative hge, isNegative_cons _ (signed_ne_nil negative (by omega)), ih]

/-- What is written is minimal. -/
theorem isMinimal_signed (negative : Bool) {n : Nat} (h : 0 < n) :
    isMinimal (signed negative n) = true := by
  induction n, h using width_induction with
  | small n hpos hlt =>
    rw [signed_of_lt negative hpos hlt, isMinimal, decide_eq_true_eq, and_magnitude_ne_zero_iff]
    split_ifs
    · rw [toNat_ofNat (by omega)]
      omega
    · rw [toNat_ofNat (by omega)]
      omega
  | fills n hge hlt =>
    have hfull : UInt8.ofNat n &&& signBit ≠ 0 := by
      rw [and_signBit_ne_zero_iff, toNat_ofNat hlt]
      exact hge
    rw [signed_of_fills negative hge hlt, isMinimal, decide_eq_true hfull, Bool.or_true]
  | wider n hge ih =>
    rw [signed_of_ge negative hge]
    exact isMinimal_cons _ (signed_ne_nil negative (by omega)) ih

/-- A number takes at most `k + 1` bytes when its magnitude leaves the top bit of the last of them
free. -/
theorem length_signed_le_iff (negative : Bool) (k n : Nat) :
    (signed negative n).length ≤ k + 1 ↔ n < 128 * 256 ^ k := by
  have hpos : 0 < 256 ^ k := by positivity
  rcases Nat.eq_zero_or_pos n with rfl | h
  · simp [hpos]
  induction n, h using width_induction generalizing k with
  | small n hn hlt =>
    rw [signed_of_lt negative hn hlt, List.length_singleton]
    exact ⟨fun _ => by nlinarith, fun _ => by omega⟩
  | fills n hge hlt =>
    rw [signed_of_fills negative hge hlt]
    cases k with
    -- The magnitude fits in one byte, but its sign does not.
    | zero => simp; omega
    | succ k =>
      rw [pow_succ] at hpos ⊢
      exact ⟨fun _ => by omega, fun _ => by simp⟩
  | wider n hge ih =>
    rw [signed_of_ge negative hge, List.length_cons]
    cases k with
    | zero =>
      have hne := List.length_pos_iff.mpr (signed_ne_nil negative (n := n / 256) (by omega))
      constructor <;> intro <;> omega
    | succ k =>
      -- The lowest byte takes one place, and the rest has to fit in the others.
      have := ih k (by positivity)
      rw [pow_succ]
      omega

/-! ## Writing and reading are inverse -/

/-- What is written writes the number. -/
theorem value_encode (n : Int) : value (encode n) = n := by
  -- Zero is written by no bytes, so it has no last byte and no sign.
  rcases eq_or_ne n 0 with rfl | hne
  · simp [encode_eq_signed, value, isNegative, magnitude]
  have hpos : 0 < n.natAbs := Int.natAbs_pos.mpr hne
  rw [encode_eq_signed, value, isNegative_signed _ hpos, magnitude_signed _ hpos]
  rcases lt_or_ge n 0 with h | h
  · rw [if_pos (decide_eq_true h)]
    omega
  · rw [if_neg (by simpa using h)]
    omega

/-- What is written is minimal. -/
theorem isMinimal_encode (n : Int) : isMinimal (encode n) = true := by
  rcases eq_or_ne n 0 with rfl | hne
  · simp [encode_eq_signed, isMinimal]
  · exact isMinimal_signed _ (Int.natAbs_pos.mpr hne)

/-- A byte with magnitude bits is its magnitude with its sign. -/
theorem signed_lastByte (last : UInt8) (h : last.toNat % 128 ≠ 0) :
    signed (decide (last &&& signBit ≠ 0)) (last.toNat % 128) = [last] := by
  have hlt := last.toNat_lt
  rw [signed_of_lt _ (by omega) (by omega), List.cons.injEq, ← UInt8.toNat_inj]
  refine ⟨?_, rfl⟩
  rcases Nat.lt_or_ge last.toNat 128 with hfree | hset
  · rw [if_neg (by simpa [and_signBit_ne_zero_iff] using hfree), toNat_ofNat (by omega)]
    omega
  · rw [if_pos (by simpa [and_signBit_ne_zero_iff] using hset), toNat_ofNat (by omega)]
    omega

/-- A minimal string writes nothing but zero by no bytes, and is its magnitude with its sign. -/
theorem signed_magnitude {item : Bytes} (hne : item ≠ []) (hm : isMinimal item = true) :
    0 < magnitude item ∧ signed (isNegative item) (magnitude item) = item := by
  -- The cases are those of the test: only the last two bytes are looked at.
  fun_induction isMinimal item with
  | case1 => exact absurd rfl hne
  | case2 last =>
    rw [decide_eq_true_eq, and_magnitude_ne_zero_iff] at hm
    rw [magnitude, isNegative, toNat_and_magnitude]
    exact ⟨by omega, signed_lastByte last hm⟩
  | case3 below last =>
    have hlast : [last] ≠ [] := List.cons_ne_nil _ _
    rw [magnitude_cons _ hlast, isNegative_cons _ hlast, magnitude, isNegative,
      toNat_and_magnitude]
    rcases eq_or_ne (last.toNat % 128) 0 with h0 | h0
    · -- The last byte is the sign alone, so the byte below it is full.
      have hfull : 128 ≤ below.toNat := by
        rw [← and_signBit_ne_zero_iff]
        have hmag : ¬ (last &&& 0x7f ≠ 0) := by
          rw [and_magnitude_ne_zero_iff]
          omega
        simpa [hmag] using hm
      have hb := below.toNat_lt
      have hl := last.toNat_lt
      rw [h0, Nat.mul_zero, Nat.add_zero]
      refine ⟨by omega, ?_⟩
      rw [signed_of_fills _ hfull hb, UInt8.ofNat_toNat]
      rcases Nat.lt_or_ge last.toNat 128 with hfree | hset
      · rw [if_neg (by simpa [and_signBit_ne_zero_iff] using hfree),
          show last = 0 from UInt8.toNat_inj.mp (by rw [show last.toNat = 0 by omega]; rfl)]
      · rw [if_pos (by simpa [and_signBit_ne_zero_iff] using hset),
          show last = signBit from
            UInt8.toNat_inj.mp (by rw [show last.toNat = 128 by omega]; rfl)]
    · rw [signed_cons _ _ (by omega), signed_lastByte last h0]
      exact ⟨by omega, rfl⟩
  | case4 b rest hsingle hpair ih =>
    -- The byte is in front of the two that decide, so the rest has its sign and is minimal too.
    have hrest : rest ≠ [] := by
      rintro rfl
      exact hsingle rfl
    obtain ⟨hpos, hsigned⟩ := ih hrest hm
    rw [magnitude_cons _ hrest, isNegative_cons _ hrest, signed_cons _ _ hpos, hsigned]
    exact ⟨by omega, rfl⟩

/-- A minimal string is what is written for its number. -/
theorem encode_value {item : Bytes} (hm : isMinimal item = true) : encode (value item) = item := by
  rcases eq_or_ne item [] with rfl | hne
  · simp [encode_eq_signed, value, isNegative, magnitude]
  obtain ⟨hpos, hsigned⟩ := signed_magnitude hne hm
  rw [encode_eq_signed, value]
  -- As the magnitude is not zero, the sign of the number is the one that was read.
  cases hneg : isNegative item with
  | false =>
    rw [hneg] at hsigned
    rw [if_neg (by decide), decide_eq_false (by omega), Int.natAbs_natCast, hsigned]
  | true =>
    rw [hneg] at hsigned
    rw [if_pos rfl, decide_eq_true (by omega), Int.natAbs_neg, Int.natAbs_natCast, hsigned]

/-- A number is written by at most four bytes when its magnitude is below `2 ^ 31`. -/
theorem length_encode_le_four_iff (n : Int) :
    (encode n).length ≤ maxLength ↔ n.natAbs ≤ 2 ^ 31 - 1 := by
  rw [encode_eq_signed, maxLength, length_signed_le_iff _ 3]
  omega

/-- Reading what is written: a number that takes more than four bytes is refused for their
number. -/
theorem decode_encode (n : Int) :
    decode (encode n) =
      if n.natAbs ≤ 2 ^ 31 - 1 then .ok n else .error (.numberTooLong (encode n).length) := by
  have hlen := length_encode_le_four_iff n
  rw [decode, isMinimal_encode, value_encode, Bool.not_true, if_neg Bool.false_ne_true]
  rcases Nat.lt_or_ge maxLength (encode n).length with hlong | hshort
  · rw [if_pos hlong, if_neg (by omega)]
  · rw [if_neg (by omega), if_pos (hlen.mp hshort)]

/-- What can be read is what is written for the number that is read. -/
theorem decode_eq_ok_iff (item : Bytes) (n : Int) :
    decode item = .ok n ↔ item.length ≤ maxLength ∧ item = encode n := by
  constructor
  · intro h
    rw [decode] at h
    split_ifs at h with hlong hmin
    rw [Except.ok.injEq] at h
    rw [Bool.not_eq_true, Bool.not_eq_false'] at hmin
    exact ⟨by omega, by rw [← h, encode_value hmin]⟩
  · rintro ⟨hlen, rfl⟩
    rw [decode_encode, if_pos ((length_encode_le_four_iff n).mp hlen)]

/-- Numbers that can be read are small. -/
theorem natAbs_le_of_decode {item : Bytes} {n : Int} (h : decode item = .ok n) :
    n.natAbs ≤ 2 ^ 31 - 1 := by
  obtain ⟨hlen, rfl⟩ := (decode_eq_ok_iff item n).mp h
  exact (length_encode_le_four_iff n).mp hlen

/-! ## Arithmetic on operands -/

/-- The difference of numbers that can be read fits a machine word. -/
theorem subtract_eq_ok {a b : Int} (ha : a.natAbs ≤ 2 ^ 31 - 1) (hb : b.natAbs ≤ 2 ^ 31 - 1) :
    subtract a b = .ok (a - b) := by
  rw [subtract, show Int64.minValue.toInt = -2 ^ 63 from rfl,
    show Int64.maxValue.toInt = 2 ^ 63 - 1 from rfl, if_pos]
  constructor <;> omega

@[simp]
theorem isTrue_ofBool (b : Bool) : isTrue (ofBool b) = b := by
  cases b <;> rfl

end OneTimeSig.Script.Number
