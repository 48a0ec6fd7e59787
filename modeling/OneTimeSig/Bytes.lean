/-!
# Byte strings

The scheme works on byte strings. Those of a fixed width (hashes, preimages, keys) carry their
length in the type, so that a function on them never has to check it. Numbers inside byte strings
are written with the most significant byte first.
-/

namespace OneTimeSig

/-- A byte string of any length. -/
abbrev Bytes := List UInt8

/-- The number that the bytes write, the most significant byte first. -/
def bigEndianValue (bytes : Bytes) : Nat :=
  bytes.foldl (fun n b => n * 256 + b.toNat) 0

/-- The lowest `width` bytes of a number, the most significant byte first. -/
def bigEndian : (width : Nat) → (n : Nat) → Bytes
  | 0, _ => []
  | width + 1, n => bigEndian width (n / 256) ++ [UInt8.ofNat n]

/-- The width asked for is the width written. -/
@[simp]
theorem length_bigEndian (width n : Nat) : (bigEndian width n).length = width := by
  induction width generalizing n with
  | zero => rfl
  | succ width ih => simp [bigEndian, ih]

/-- A byte string of exactly `n` bytes. -/
structure FixedBytes (n : Nat) where
  /-- The bytes in order. -/
  toList : Bytes
  /-- There are exactly `n` of them. -/
  length_toList : toList.length = n
deriving DecidableEq

namespace FixedBytes

attribute [simp] length_toList

/-- Two strings of fixed width are equal when their bytes are. -/
@[ext]
theorem ext {n : Nat} {a b : FixedBytes n} (h : a.toList = b.toList) : a = b := by
  cases a; cases b; simp_all

/-- The bytes as a string of width `n`, when there are exactly `n`. -/
def ofList? (n : Nat) (bytes : Bytes) : Option (FixedBytes n) :=
  if h : bytes.length = n then some ⟨bytes, h⟩ else none

/-- The lowest `n` bytes of a number, the most significant byte first. -/
def ofNat (n value : Nat) : FixedBytes n :=
  ⟨bigEndian n value, length_bigEndian n value⟩

/-- The first `m` bytes. -/
def take {n : Nat} (b : FixedBytes n) (m : Nat) (h : m ≤ n) : FixedBytes m :=
  ⟨b.toList.take m, by simp [h]⟩

end FixedBytes

end OneTimeSig
