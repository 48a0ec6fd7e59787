import OneTimeSig.Proofs.Blank
import OneTimeSig.Proofs.Outcome
import OneTimeSig.Text.HexField

/-!
# Which texts are hexadecimal

A byte is written as two digits in lower case, none of which ends a line (`lineFeed_notMem_encode`),
and no two byte strings are written alike (`digits_injective`). Bytes are a hexadecimal text when
they pair up and each of them is a digit of either case (`IsText`). Any others have a fault: an odd
number of them, or else the first that is no digit (`Fault`). A text is decoded to the bytes whose
digits it has up to case (`IsText.decode_eq`), and what has a fault is refused for it
(`Fault.decode_eq`). So the digits of bytes are read back in either case (`decode_of_toLower`).
-/

namespace OneTimeSig.Hex

variable {b : UInt8} {u bytes : Bytes} {cause : Error}

/-! ## Digits -/

/-- The digits of a byte stand in front of those of the bytes behind it. -/
theorem digits_cons (b : UInt8) (bytes : Bytes) :
    digits (b :: bytes) =
      Nat.digitChar (b.toNat / 16) :: Nat.digitChar (b.toNat % 16) :: digits bytes := rfl

/-- A byte is written with two characters. -/
theorem length_digits (bytes : Bytes) : (digits bytes).length = 2 * bytes.length := by
  induction bytes with
  | nil => rfl
  | cons b bytes ih =>
    rw [digits_cons, List.length_cons, List.length_cons, List.length_cons, ih]
    omega

/-- What is written are digits. -/
theorem exists_of_mem_digits {bytes : Bytes} {c : Char} (h : c ∈ digits bytes) :
    ∃ n < 16, c = Nat.digitChar n := by
  obtain ⟨b, -, hc⟩ := List.mem_flatMap.mp h
  have hb := b.toNat_lt
  simp only [List.mem_cons, List.not_mem_nil, or_false] at hc
  rcases hc with rfl | rfl
  · exact ⟨b.toNat / 16, by omega, rfl⟩
  · exact ⟨b.toNat % 16, by omega, rfl⟩

/-- What is written is in lower case. -/
theorem map_toLower_digits (bytes : Bytes) : (digits bytes).map Char.toLower = digits bytes := by
  have hall : ∀ n < 16, (Nat.digitChar n).toLower = Nat.digitChar n := by decide
  refine (List.map_congr_left fun c hc => ?_).trans (List.map_id _)
  obtain ⟨n, hn, rfl⟩ := exists_of_mem_digits hc
  exact hall n hn

/-- A hexadecimal text is a part of one line. -/
theorem lineFeed_notMem_encode (bytes : Bytes) : '\n' ∉ (encode bytes).toList := by
  have hall : ∀ n < 16, '\n' ≠ Nat.digitChar n := by decide
  rw [encode, String.toList_ofList]
  intro hmem
  obtain ⟨n, hn, hc⟩ := exists_of_mem_digits hmem
  exact hall n hn hc

/-- No two byte strings are written with the same digits. -/
theorem digits_injective : Function.Injective digits := by
  have hall : ∀ m < 16, ∀ n < 16, Nat.digitChar m = Nat.digitChar n → m = n := by decide
  intro bytes
  induction bytes with
  | nil =>
    intro bytes' h
    cases bytes' with
    | nil => rfl
    | cons b' bytes' => nomatch h
  | cons b bytes ih =>
    intro bytes' h
    cases bytes' with
    | nil => nomatch h
    | cons b' bytes' =>
      rw [digits_cons, digits_cons, List.cons.injEq, List.cons.injEq] at h
      obtain ⟨hhigh, hlow, hrest⟩ := h
      have hb := b.toNat_lt
      have hb' := b'.toNat_lt
      have hquotient := hall _ (by omega) _ (by omega) hhigh
      have hremainder := hall _ (by omega) _ (by omega) hlow
      have hbyte : b.toNat = b'.toNat := by omega
      rw [UInt8.toNat_inj.mp hbyte, ih hrest]

/-! ## Hexadecimal texts -/

/-- The byte is the code of a hexadecimal digit in either case. -/
def IsDigit (b : UInt8) : Prop :=
  let c := Char.ofUInt8 b
  ('0' ≤ c ∧ c ≤ '9') ∨ ('a' ≤ c ∧ c ≤ 'f') ∨ ('A' ≤ c ∧ c ≤ 'F')

instance : DecidablePred IsDigit :=
  fun _ => inferInstanceAs (Decidable (_ ∨ _))

/-- The character of a byte in lower case. -/
def lower (b : UInt8) : Char :=
  (Char.ofUInt8 b).toLower

/-- The bytes are a hexadecimal text. -/
structure IsText (u : Bytes) : Prop where
  /-- They pair up. -/
  even : u.length % 2 = 0
  /-- Each of them is a digit. -/
  isDigit : ∀ b ∈ u, IsDigit b

/-- What is wrong with bytes that are no hexadecimal text. -/
inductive Fault : Bytes → Error → Prop
  /-- They do not pair up, whatever they are. -/
  | oddLength {u : Bytes} (hodd : u.length % 2 = 1) : Fault u .oddLength
  /-- They do, and this is the first that is no digit. -/
  | invalidByte {front back : Bytes} {b : UInt8} (heven : (front ++ b :: back).length % 2 = 0)
    (hfront : ∀ c ∈ front, IsDigit c) (hb : ¬ IsDigit b) :
    Fault (front ++ b :: back) (.invalidByte b front.length)

/-! ## Values of digits -/

/-- What holds of the numbers below 256 holds of every byte. -/
theorem forall_byte {P : UInt8 → Prop} (h : ∀ n < 256, P (UInt8.ofNat n)) (b : UInt8) : P b := by
  rw [← UInt8.ofNat_toNat (x := b)]
  exact h b.toNat b.toNat_lt

/-- A digit has the value of the digit that is written for it in lower case. -/
theorem exists_value (h : IsDigit b) :
    ∃ n < 16, lower b = Nat.digitChar n ∧ ∀ position, value b position = .ok (UInt8.ofNat n) := by
  have hall : ∀ b, IsDigit b →
      ∃ n < 16, lower b = Nat.digitChar n ∧ value? b = some (UInt8.ofNat n) :=
    forall_byte (by decide +kernel)
  obtain ⟨n, hn, hlower, hvalue⟩ := hall b h
  refine ⟨n, hn, hlower, fun position => ?_⟩
  rw [value, hvalue]

/-- Any other byte has no value. -/
theorem value_eq_error (h : ¬ IsDigit b) (position : Nat) :
    value b position = .error (.invalidByte b position) := by
  have hall : ∀ b, ¬ IsDigit b → value? b = none := forall_byte (by decide +kernel)
  rw [value, hall b h]

/-- The byte of two values is written with their digits. -/
theorem digits_pair {m n : Nat} (hm : m < 16) (hn : n < 16) (bytes : Bytes) :
    digits ((UInt8.ofNat m * 16 + UInt8.ofNat n) :: bytes) =
      Nat.digitChar m :: Nat.digitChar n :: digits bytes := by
  have hhigh : (UInt8.ofNat m).toNat = m := UInt8.toNat_ofNat_of_lt' (hm.trans (by decide))
  have hlow : (UInt8.ofNat n).toNat = n := UInt8.toNat_ofNat_of_lt' (hn.trans (by decide))
  have hpair : (UInt8.ofNat m * 16 + UInt8.ofNat n).toNat = m * 16 + n := by
    rw [UInt8.toNat_add, UInt8.toNat_mul, hhigh, hlow, show (16 : UInt8).toNat = 16 from rfl]
    omega
  rw [digits_cons, hpair, show (m * 16 + n) / 16 = m by omega,
    show (m * 16 + n) % 16 = n by omega]

/-! ## Decoding -/

/-- Digits that pair up are decoded to the bytes that they write. -/
theorem decodePairs_of_isDigit :
    ∀ {u : Bytes} (position : Nat), u.length % 2 = 0 → (∀ b ∈ u, IsDigit b) →
      ∃ bytes, decodePairs position u = .ok bytes ∧ digits bytes = u.map lower
  | [], _, _, _ => ⟨[], rfl, rfl⟩
  | [_], _, heven, _ => absurd heven (by simp)
  | high :: low :: rest, position, heven, hdigit => by
    rw [List.forall_mem_cons, List.forall_mem_cons] at hdigit
    obtain ⟨hhigh, hlow, hrest⟩ := hdigit
    obtain ⟨m, hm, hm', hmvalue⟩ := exists_value hhigh
    obtain ⟨n, hn, hn', hnvalue⟩ := exists_value hlow
    have heven' : rest.length % 2 = 0 := by
      rw [List.length_cons, List.length_cons] at heven
      omega
    obtain ⟨bytes, hbytes, hwritten⟩ := decodePairs_of_isDigit (position + 2) heven' hrest
    refine ⟨(UInt8.ofNat m * 16 + UInt8.ofNat n) :: bytes, ?_, ?_⟩
    · rw [decodePairs, hmvalue, hnvalue, hbytes]
      rfl
    · rw [digits_pair hm hn, hwritten, List.map_cons, List.map_cons, hm', hn']

/-- Bytes that pair up are refused for the first that is no digit. -/
theorem decodePairs_of_not_isDigit (hb : ¬ IsDigit b) :
    ∀ {front back : Bytes} (position : Nat), (front ++ b :: back).length % 2 = 0 →
      (∀ c ∈ front, IsDigit c) →
        decodePairs position (front ++ b :: back) =
          .error (.invalidByte b (position + front.length))
  | [], [], _, heven, _ => absurd heven (by simp)
  | [], low :: back, position, _, _ => by
    -- It is the former of its pair, and the latter is not looked at.
    rw [List.nil_append, decodePairs, value_eq_error hb]
    rfl
  | [high], back, position, _, hfront => by
    -- It is the latter of its pair.
    obtain ⟨m, -, -, hmvalue⟩ := exists_value (List.forall_mem_singleton.mp hfront)
    rw [List.singleton_append, decodePairs, hmvalue, ok_bind, value_eq_error hb]
    rfl
  | high :: low :: front, back, position, heven, hfront => by
    rw [List.forall_mem_cons, List.forall_mem_cons] at hfront
    obtain ⟨hhigh, hlow, hfront⟩ := hfront
    obtain ⟨m, -, -, hmvalue⟩ := exists_value hhigh
    obtain ⟨n, -, -, hnvalue⟩ := exists_value hlow
    have heven' : (front ++ b :: back).length % 2 = 0 := by
      simp only [List.cons_append, List.length_cons] at heven
      omega
    rw [List.cons_append, List.cons_append, decodePairs, hmvalue, hnvalue, ok_bind, ok_bind,
      decodePairs_of_not_isDigit hb (position + 2) heven' hfront, error_bind, List.length_cons,
      List.length_cons, Nat.add_assoc, Nat.add_comm 2]

/-- A hexadecimal text is decoded to the bytes that it writes. -/
theorem IsText.decode_eq (h : IsText u) :
    ∃ bytes, decode u = .ok bytes ∧ digits bytes = u.map lower := by
  have hodd : u.length % 2 ≠ 1 := by
    rw [h.even]
    exact Nat.zero_ne_one
  rw [decode, if_neg hodd]
  exact decodePairs_of_isDigit 0 h.even h.isDigit

/-- What has a fault is refused for it. -/
theorem Fault.decode_eq (h : Fault u cause) : decode u = .error cause := by
  cases h with
  | oddLength hodd => rw [decode, if_pos hodd]
  | invalidByte heven hfront hb =>
    rw [decode, if_neg (by rw [heven]; exact Nat.zero_ne_one),
      decodePairs_of_not_isDigit hb 0 heven hfront, Nat.zero_add]

/-- A character that is a digit in lower case is in ASCII. -/
theorem toNat_lt_of_toLower {c : Char} {n : Nat} (hn : n < 16) (h : c.toLower = Nat.digitChar n) :
    c.toNat < 128 := by
  unfold Char.toLower at h
  split at h
  next hupper =>
    have hle : c.toNat ≤ 'Z'.toNat := hupper.2
    exact Nat.lt_of_le_of_lt hle (by decide)
  next =>
    have hall : ∀ n < 16, (Nat.digitChar n).toNat < 128 := by decide
    exact h ▸ hall n hn

/-- It takes one byte, which is a digit, and is no blank. -/
theorem exists_byte {c : Char} {n : Nat} (hn : n < 16) (h : c.toLower = Nat.digitChar n) :
    ∃ b, String.utf8EncodeChar c = [b] ∧ IsDigit b ∧ lower b = c.toLower ∧
      Text.isBlank c = false := by
  have hall : ∀ m < 128, ∀ n < 16, (Char.ofNat m).toLower = Nat.digitChar n →
      String.utf8EncodeChar (Char.ofNat m) = [UInt8.ofNat m] ∧ IsDigit (UInt8.ofNat m) ∧
        lower (UInt8.ofNat m) = (Char.ofNat m).toLower ∧ Text.isBlank (Char.ofNat m) = false := by
    decide +kernel
  have hc := hall c.toNat (toNat_lt_of_toLower hn h) n hn
  rw [Char.ofNat_toNat] at hc
  exact ⟨UInt8.ofNat c.toNat, hc h⟩

/-- Characters that are the digits of bytes up to case are a text of these bytes. -/
theorem utf8_of_toLower {written : List Char}
    (h : ∀ c ∈ written, ∃ n < 16, c.toLower = Nat.digitChar n) :
    (∀ b ∈ Text.utf8 written, IsDigit b) ∧
      (Text.utf8 written).map lower = written.map Char.toLower := by
  induction written with
  | nil => exact ⟨List.forall_mem_nil _, rfl⟩
  | cons c written ih =>
    rw [List.forall_mem_cons] at h
    obtain ⟨⟨n, hn, hc⟩, hrest⟩ := h
    obtain ⟨b, hb, hdigit, hlower, -⟩ := exists_byte hn hc
    obtain ⟨hdigits, hmap⟩ := ih hrest
    have hutf8 : Text.utf8 (c :: written) = b :: Text.utf8 written := by
      rw [Text.utf8, List.flatMap_cons, hb]
      rfl
    rw [hutf8, List.forall_mem_cons, List.map_cons, List.map_cons, hlower, hmap]
    exact ⟨⟨hdigit, hdigits⟩, rfl⟩

/-- The digits of bytes are decoded to them in either case, and have no blanks. -/
theorem decode_of_toLower {written : List Char} (h : written.map Char.toLower = digits bytes) :
    decode (Text.utf8 written) = .ok bytes ∧ ∀ c ∈ written, Text.isBlank c = false := by
  have hwritten : ∀ c ∈ written, ∃ n < 16, c.toLower = Nat.digitChar n := by
    intro c hc
    exact exists_of_mem_digits (h ▸ List.mem_map_of_mem hc)
  obtain ⟨hdigits, hmap⟩ := utf8_of_toLower hwritten
  refine ⟨?_, fun c hc => ?_⟩
  · have hlength : (Text.utf8 written).length = 2 * bytes.length := by
      rw [← length_digits, ← h, ← hmap, List.length_map]
    have htext : IsText (Text.utf8 written) := ⟨by omega, hdigits⟩
    obtain ⟨bytes', hbytes', hsame⟩ := htext.decode_eq
    rw [hbytes', digits_injective (hsame.trans (hmap.trans h))]
  · obtain ⟨n, hn, hlower⟩ := hwritten c hc
    obtain ⟨-, -, -, -, hblank⟩ := exists_byte hn hlower
    exact hblank

/-- The digits that are written for bytes are decoded to them. -/
theorem decode_digits (bytes : Bytes) : decode (Text.utf8 (digits bytes)) = .ok bytes :=
  (decode_of_toLower (map_toLower_digits bytes)).1

end OneTimeSig.Hex
