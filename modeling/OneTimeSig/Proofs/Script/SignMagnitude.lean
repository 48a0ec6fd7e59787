import Mathlib.Data.Nat.Digits.Defs
import OneTimeSig.Proofs.Script.Failure

/-!
# The sign-magnitude form of a number

Read as one word with the least significant byte first, a byte string writes a number in
sign-magnitude form: the top bit of the word is the sign and the others are the magnitude
(`signMagnitude`). The machine reads a string byte by byte and comes to the same number
(`value_eq_signMagnitude`), and it takes a string for true when that number is not zero, whether or
not the string is minimal (`isTrue_eq_false_iff`). Of all strings that write a number, what is written
for it is the shortest (`length_encode_le`). `operand_encoding` adds which strings can be read.
-/

namespace OneTimeSig.Script.Number

/-! ## Words -/

/-- The bytes as one word, the least significant byte first. -/
def word (item : Bytes) : Nat :=
  Nat.ofDigits 256 (item.map UInt8.toNat)

/-- The weight of the top bit of a word. -/
def signWeight (item : Bytes) : Nat :=
  2 ^ (8 * item.length - 1)

/-- The number that a word writes: its top bit is the sign, and the other bits are the magnitude. No
bytes write zero. -/
def signMagnitude (item : Bytes) : Int :=
  if word item < signWeight item then word item else -((word item : Int) - signWeight item)

theorem word_singleton (last : UInt8) : word [last] = last.toNat := by
  rw [word, List.map_singleton, Nat.ofDigits_singleton]

theorem word_cons (b : UInt8) (rest : Bytes) : word (b :: rest) = b.toNat + 256 * word rest := by
  rw [word, word, List.map_cons, Nat.ofDigits_cons]

theorem signWeight_singleton (last : UInt8) : signWeight [last] = 128 := rfl

/-- A byte in front of others moves the top bit up. -/
theorem signWeight_cons (b : UInt8) {rest : Bytes} (h : rest ≠ []) :
    signWeight (b :: rest) = 256 * signWeight rest := by
  have hpos := List.length_pos_iff.mpr h
  rw [signWeight, signWeight, List.length_cons,
    show 8 * (rest.length + 1) - 1 = 8 + (8 * rest.length - 1) by omega, pow_add]
  norm_num

/-- A word is the magnitude with the sign on top of it. -/
theorem word_eq {item : Bytes} (h : item ≠ []) :
    magnitude item < signWeight item ∧
      word item = magnitude item + if isNegative item then signWeight item else 0 := by
  induction item with
  | nil => exact absurd rfl h
  | cons b rest ih =>
    have hb := b.toNat_lt
    rcases eq_or_ne rest [] with rfl | hrest
    · -- The one byte is the last, and holds the sign.
      rw [magnitude, isNegative, toNat_and_magnitude, signWeight_singleton, word_singleton]
      refine ⟨by omega, ?_⟩
      rcases Nat.lt_or_ge b.toNat 128 with hfree | hset
      · rw [if_neg (by simpa [and_signBit_ne_zero_iff] using hfree)]
        omega
      · rw [if_pos (by simpa [and_signBit_ne_zero_iff] using hset)]
        omega
    · obtain ⟨hlt, heq⟩ := ih hrest
      rw [magnitude_cons b hrest, isNegative_cons b hrest, signWeight_cons b hrest, word_cons, heq]
      refine ⟨by omega, ?_⟩
      split_ifs <;> omega

/-- The machine reads the number that the word writes. -/
theorem value_eq_signMagnitude (item : Bytes) : value item = signMagnitude item := by
  rcases eq_or_ne item [] with rfl | hne
  · rfl
  obtain ⟨hlt, heq⟩ := word_eq hne
  rw [value, signMagnitude, heq]
  split_ifs <;> omega

/-! ## The shortest string -/

theorem natAbs_value (item : Bytes) : (value item).natAbs = magnitude item := by
  rw [value]
  split_ifs
  · rw [Int.natAbs_neg, Int.natAbs_natCast]
  · rw [Int.natAbs_natCast]

/-- What is written for the number of a string is no longer than the string. -/
theorem length_encode_value_le (item : Bytes) : (encode (value item)).length ≤ item.length := by
  rcases eq_or_ne item [] with rfl | hne
  · simp [value, isNegative, magnitude, encode_eq_signed]
  obtain ⟨k, hk⟩ := Nat.exists_eq_add_one.mpr (List.length_pos_iff.mpr hne)
  have hlt := (word_eq hne).1
  have hweight : signWeight item = 128 * 256 ^ k := by
    rw [signWeight, hk, show 8 * (k + 1) - 1 = 7 + 8 * k by omega, pow_add, pow_mul]
    norm_num
  rw [encode_eq_signed, natAbs_value, hk, length_signed_le_iff, ← hweight]
  exact hlt

/-- What is written for a number is no longer than any string that writes it. -/
theorem length_encode_le {item : Bytes} {n : Int} (h : signMagnitude item = n) :
    (encode n).length ≤ item.length := by
  rw [← h, ← value_eq_signMagnitude]
  exact length_encode_value_le item

/-! ## What is not an operand, and what is true -/

/-- A string that is short enough but is not what is written for some number is refused. -/
theorem decode_of_ne_encode {item : Bytes} (hlen : item.length ≤ maxLength)
    (h : ∀ n, item ≠ encode n) : decode item = .error (.nonMinimalNumber (Hex.encode item)) := by
  have hmin : isMinimal item = false := by
    rw [Bool.eq_false_iff]
    exact fun hm => h _ (encode_value hm).symm
  rw [decode, if_neg (by omega), hmin]
  rfl

/-- A string counts as false when it has no magnitude. -/
theorem isTrue_eq_false_iff_magnitude (item : Bytes) : isTrue item = false ↔ magnitude item = 0 := by
  induction item with
  | nil => exact iff_of_true rfl rfl
  | cons b rest ih =>
    have hb := b.toNat_lt
    have hzero : b = 0 ↔ b.toNat = 0 := by rw [← UInt8.toNat_inj]; rfl
    rcases eq_or_ne rest [] with rfl | hrest
    · have hsign : b = signBit ↔ b.toNat = 128 := by rw [← UInt8.toNat_inj]; rfl
      simp only [isTrue, magnitude, toNat_and_magnitude, Bool.and_eq_false_iff,
        decide_eq_false_iff_not, not_not, hzero, hsign]
      omega
    · obtain ⟨c, rest, rfl⟩ := List.exists_cons_of_ne_nil hrest
      have hcons : isTrue (b :: c :: rest) = (decide (b ≠ 0) || isTrue (c :: rest)) := rfl
      rw [magnitude_cons b hrest, hcons, Bool.or_eq_false_iff, ih, decide_eq_false_iff_not, not_not,
        hzero]
      omega

/-- A string counts as false when it writes zero. -/
theorem isTrue_eq_false_iff (item : Bytes) : isTrue item = false ↔ signMagnitude item = 0 := by
  rw [isTrue_eq_false_iff_magnitude, ← value_eq_signMagnitude, ← natAbs_value, Int.natAbs_eq_zero]

/-- Every number is written in sign-magnitude form by the shortest string that writes it, and read
back from it unless that takes more than four bytes; it counts as true unless it is zero. Every string
can be read that has at most four bytes and is what is written for a number. Any other of at most four
bytes is refused as not minimal and any longer one for its length; all of them count as false when
they write zero. So operands are small: neither a subtraction on any stack nor a run of any program
ever leaves a machine word. -/
theorem operand_encoding :
    (∀ n : Int,
      signMagnitude (encode n) = n ∧
      (∀ item, signMagnitude item = n → (encode n).length ≤ item.length) ∧
      decode (encode n) =
        (if n.natAbs ≤ 2 ^ 31 - 1 then .ok n else .error (.numberTooLong (encode n).length)) ∧
      (isTrue (encode n) = true ↔ n ≠ 0)) ∧
    (∀ item,
      (∀ n, decode item = .ok n ↔ item.length ≤ 4 ∧ item = encode n) ∧
      (item.length ≤ 4 → (∀ n, item ≠ encode n) →
        decode item = .error (.nonMinimalNumber (Hex.encode item))) ∧
      (4 < item.length → decode item = .error (.numberTooLong item.length)) ∧
      (isTrue item = false ↔ signMagnitude item = 0)) ∧
    (∀ s, Machine.step .sub s ≠ .error .numericOverflow) ∧
    ∀ program publicKey witness,
      Machine.execute program publicKey witness ≠ .error .numericOverflow := by
  have hwritten : ∀ n, signMagnitude (encode n) = n := by
    intro n
    rw [← value_eq_signMagnitude, value_encode]
  refine ⟨fun n => ⟨hwritten n, fun item => length_encode_le, decode_encode n, ?_⟩,
    fun item => ⟨decode_eq_ok_iff item, decode_of_ne_encode, fun h => if_pos h,
      isTrue_eq_false_iff item⟩, fun s h => ?_, fun program publicKey witness => ?_⟩
  · have hfalse := isTrue_eq_false_iff (encode n)
    rw [hwritten] at hfalse
    rw [← Bool.not_eq_false, ne_eq, hfalse]
  · have hstep := Machine.ofInstruction_step .sub s
    rw [h] at hstep
    exact hstep
  · exact Machine.execute_ne_numericOverflow publicKey program witness

/-- The least machine word takes nine bytes. -/
theorem operand_encoding_minValue :
    decode (encode Int64.minValue.toInt) = .error (.numberTooLong 9) ∧
      (∀ item, signMagnitude item = Int64.minValue.toInt → 9 ≤ item.length) ∧
      decode [0x00, 0x80] = .error (.nonMinimalNumber "0080") ∧
      decode [0, 0, 0, 0, 0] = .error (.numberTooLong 5) ∧ isTrue [0, 0, 0, 0, 0x80] = false := by
  obtain ⟨hnumbers, hitems, -, -⟩ := operand_encoding
  obtain ⟨-, hshortest, hread, -⟩ := hnumbers Int64.minValue.toInt
  have hlength : (encode Int64.minValue.toInt).length = 9 := by decide +kernel
  rw [hlength] at hshortest hread
  refine ⟨hread, hshortest, ?_, (hitems _).2.2.1 (by decide), (hitems _).2.2.2.mpr (by decide)⟩
  refine (hitems _).2.1 (by decide) fun n hn => ?_
  -- A number that wrote this string would be read from it.
  have hvalue := congrArg value hn
  rw [value_encode] at hvalue
  rw [← hvalue] at hn
  exact absurd hn (by decide +kernel)

end OneTimeSig.Script.Number
