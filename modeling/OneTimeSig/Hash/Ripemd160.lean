import OneTimeSig.Bytes

/-!
# RIPEMD-160

The hash function on 32-bit words written with the least significant byte first. Each block of 64
bytes runs through two independent lines of five rounds with sixteen steps each, and both results
join the chaining value of five words.
-/

namespace OneTimeSig.Ripemd160

/-- The five words that the blocks are mixed into. -/
structure Chain where
  (a b c d e : UInt32)

/-- The chaining value before the first block. -/
def initial : Chain :=
  ⟨0x67452301, 0xefcdab89, 0x98badcfe, 0x10325476, 0xc3d2e1f0⟩

/-- Sixteen steps of a line. -/
structure Round where
  /-- The function that joins three words of the chaining value. -/
  join : UInt32 → UInt32 → UInt32 → UInt32
  /-- The constant that is added in each step. -/
  constant : UInt32
  /-- For each step the word of the block that it takes, and the width of its rotation. -/
  steps : List (Nat × UInt32)

/-- The parity of three bits. -/
def parity (x y z : UInt32) : UInt32 := x ^^^ y ^^^ z

/-- The second bit where the first is set, and the third elsewhere. -/
def choose (x y z : UInt32) : UInt32 := (x &&& y) ||| (x.complement &&& z)

/-- The first bit or the inverse of the second, against the third. -/
def orAgainst (x y z : UInt32) : UInt32 := (x ||| y.complement) ^^^ z

/-- The first bit where the third is set, and the second elsewhere. -/
def chooseByLast (x y z : UInt32) : UInt32 := (x &&& z) ||| (y &&& z.complement)

/-- The first bit against the second or the inverse of the third. -/
def againstOr (x y z : UInt32) : UInt32 := x ^^^ (y ||| z.complement)

/-- The rounds of the left line. -/
def leftLine : List Round := [
  ⟨parity, 0, List.zip
    [0, 1, 2, 3, 4, 5, 6, 7, 8, 9, 10, 11, 12, 13, 14, 15]
    [11, 14, 15, 12, 5, 8, 7, 9, 11, 13, 14, 15, 6, 7, 9, 8]⟩,
  ⟨choose, 0x5a827999, List.zip
    [7, 4, 13, 1, 10, 6, 15, 3, 12, 0, 9, 5, 2, 14, 11, 8]
    [7, 6, 8, 13, 11, 9, 7, 15, 7, 12, 15, 9, 11, 7, 13, 12]⟩,
  ⟨orAgainst, 0x6ed9eba1, List.zip
    [3, 10, 14, 4, 9, 15, 8, 1, 2, 7, 0, 6, 13, 11, 5, 12]
    [11, 13, 6, 7, 14, 9, 13, 15, 14, 8, 13, 6, 5, 12, 7, 5]⟩,
  ⟨chooseByLast, 0x8f1bbcdc, List.zip
    [1, 9, 11, 10, 0, 8, 12, 4, 13, 3, 7, 15, 14, 5, 6, 2]
    [11, 12, 14, 15, 14, 15, 9, 8, 9, 14, 5, 6, 8, 6, 5, 12]⟩,
  ⟨againstOr, 0xa953fd4e, List.zip
    [4, 0, 5, 9, 7, 12, 2, 10, 14, 1, 3, 8, 11, 6, 15, 13]
    [9, 15, 5, 11, 6, 8, 13, 12, 5, 12, 13, 14, 11, 8, 5, 6]⟩]

/-- The rounds of the right line, which takes the joining functions in the opposite order. -/
def rightLine : List Round := [
  ⟨againstOr, 0x50a28be6, List.zip
    [5, 14, 7, 0, 9, 2, 11, 4, 13, 6, 15, 8, 1, 10, 3, 12]
    [8, 9, 9, 11, 13, 15, 15, 5, 7, 7, 8, 11, 14, 14, 12, 6]⟩,
  ⟨chooseByLast, 0x5c4dd124, List.zip
    [6, 11, 3, 7, 0, 13, 5, 10, 14, 15, 8, 12, 4, 9, 1, 2]
    [9, 13, 15, 7, 12, 8, 9, 11, 7, 7, 12, 7, 6, 15, 13, 11]⟩,
  ⟨orAgainst, 0x6d703ef3, List.zip
    [15, 5, 1, 3, 7, 14, 6, 9, 11, 8, 12, 2, 10, 0, 4, 13]
    [9, 7, 15, 11, 8, 6, 6, 14, 12, 13, 5, 14, 13, 13, 7, 5]⟩,
  ⟨choose, 0x7a6d76e9, List.zip
    [8, 6, 4, 1, 3, 11, 15, 0, 5, 12, 2, 13, 9, 7, 10, 14]
    [15, 5, 8, 11, 14, 14, 6, 14, 6, 9, 12, 9, 12, 5, 15, 8]⟩,
  ⟨parity, 0, List.zip
    [12, 15, 10, 4, 1, 5, 8, 7, 6, 2, 13, 14, 0, 3, 9, 11]
    [8, 5, 12, 9, 12, 5, 14, 6, 8, 13, 6, 5, 15, 13, 11, 11]⟩]

/-- Rotation to the left by `n` bits, for `0 < n < 32`. -/
@[inline]
def rotateLeft (x n : UInt32) : UInt32 :=
  (x <<< n) ||| (x >>> (32 - n))

/-- The words of a block, each from four bytes with the least significant first. -/
def words : Bytes → List UInt32
  | a :: b :: c :: d :: rest =>
    (a.toUInt32 ||| (b.toUInt32 <<< 8) ||| (c.toUInt32 <<< 16) ||| (d.toUInt32 <<< 24)) :: words rest
  | _ => []

/-- One step of a round on the words `block`. -/
def step (block : Array UInt32) (r : Round) (s : Chain) (st : Nat × UInt32) : Chain :=
  let t := rotateLeft (s.a + r.join s.b s.c s.d + block.getD st.1 0 + r.constant) st.2 + s.e
  ⟨s.e, t, s.b, rotateLeft s.c 10, s.d⟩

/-- A whole line on the words `block`. -/
def line (rounds : List Round) (block : Array UInt32) (s : Chain) : Chain :=
  rounds.foldl (fun s r => r.steps.foldl (step block r) s) s

/-- Mixes one block of 64 bytes into the chaining value. -/
def compress (s : Chain) (bytes : Bytes) : Chain :=
  let block := (words bytes).toArray
  let l := line leftLine block s
  let r := line rightLine block s
  ⟨s.b + l.c + r.d, s.c + l.d + r.e, s.d + l.e + r.a, s.e + l.a + r.b, s.a + l.b + r.c⟩

/-- The padded message: a one bit, zeros, and the length in bits as the last eight bytes, the least
significant first. -/
def pad (message : Bytes) : Bytes :=
  message ++ 0x80 :: List.replicate ((119 - message.length % 64) % 64) 0
    ++ (bigEndian 8 (8 * message.length)).reverse

/-- Mixes the first `blocks` blocks of the bytes into the chaining value. -/
def absorb : (blocks : Nat) → Chain → Bytes → Chain
  | 0, s, _ => s
  | blocks + 1, s, bytes => absorb blocks (compress s (bytes.take 64)) (bytes.drop 64)

/-- The four bytes of a word, the least significant first. -/
def wordBytes (w : UInt32) : Bytes :=
  [w.toUInt8, (w >>> 8).toUInt8, (w >>> 16).toUInt8, (w >>> 24).toUInt8]

/-- The bytes of a chaining value. -/
def Chain.bytes (s : Chain) : FixedBytes 20 :=
  ⟨wordBytes s.a ++ wordBytes s.b ++ wordBytes s.c ++ wordBytes s.d ++ wordBytes s.e, rfl⟩

/-- The RIPEMD-160 hash of a message. -/
def hash (message : Bytes) : FixedBytes 20 :=
  let padded := pad message
  (absorb (padded.length / 64) initial padded).bytes

/-- The standard's own example, the three letters `abc`. -/
example : (hash [0x61, 0x62, 0x63]).toList = [
    0x8e, 0xb2, 0x08, 0xf7, 0xe0, 0x5d, 0x98, 0x7a, 0x9b, 0x04, 0x4a, 0x8e,
    0x98, 0xc6, 0xb0, 0x87, 0xf1, 0x5a, 0x0b, 0xfc] := by
  decide +kernel

end OneTimeSig.Ripemd160
