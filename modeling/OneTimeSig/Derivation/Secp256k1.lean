import OneTimeSig.Bytes

/-!
# The curve of the derived keys

Derived keys are scalars of the group secp256k1, the points of `y² = x³ + 7` over a prime field.
The scheme itself needs the scalars only; the point of a scalar enters the fingerprint by which an
extended key names its parent.
-/

namespace OneTimeSig.Secp256k1

/-- The number of field elements. -/
def fieldSize : Nat := 0xfffffffffffffffffffffffffffffffffffffffffffffffffffffffefffffc2f

/-- The number of points. -/
def order : Nat := 0xfffffffffffffffffffffffffffffffebaaedce6af48a03bbfd25e8cd0364141

/-- A private key: a number below the group order other than zero. -/
structure Scalar where
  /-- The number. -/
  val : Nat
  /-- It is not zero. -/
  pos : 0 < val
  /-- It is below the group order. -/
  lt : val < order
deriving DecidableEq

namespace Scalar

/-- The number as a private key, if it is one. -/
def ofNat? (n : Nat) : Option Scalar :=
  if h : 0 < n ∧ n < order then some ⟨n, h.1, h.2⟩ else none

/-- The sum of two private keys, unless they cancel. -/
def add? (a b : Scalar) : Option Scalar :=
  ofNat? ((a.val + b.val) % order)

/-- The private key as 32 bytes. -/
def bytes (a : Scalar) : FixedBytes 32 :=
  FixedBytes.ofNat 32 a.val

end Scalar

/-- The power `b ^ e` modulo `m`, by repeated squaring. -/
def powMod (m b e : Nat) : Nat :=
  if e = 0 then 1 % m
  else
    let rest := powMod m (b * b % m) (e / 2)
    if e % 2 = 1 then b * rest % m else rest
termination_by e
decreasing_by omega

/-- The difference of two field elements. -/
def sub (a b : Nat) : Nat := (a + fieldSize - b % fieldSize) % fieldSize

/-- A point in Jacobian coordinates: `(x / z², y / z³)`, or the neutral element when `z = 0`. -/
structure Point where
  (x y z : Nat)

/-- The neutral element. -/
def Point.zero : Point := ⟨1, 1, 0⟩

/-- The generator of the group. -/
def Point.generator : Point where
  x := 0x79be667ef9dcbbac55a06295ce870b07029bfcdb2dce28d959f2815b16f81798
  y := 0x483ada7726a3c4655da4fbfc0e1108a8fd17b448a68554199c47d08ffb10d4b8
  z := 1

/-- Twice a point. -/
def Point.double (p : Point) : Point :=
  let a := p.x * p.x % fieldSize
  let b := p.y * p.y % fieldSize
  let c := b * b % fieldSize
  let s := 4 * p.x * b % fieldSize
  let m := 3 * a % fieldSize
  let x := sub (m * m) (2 * s)
  ⟨x, sub (m * sub s x) (8 * c), 2 * p.y * p.z % fieldSize⟩

/-- The sum of two points. -/
def Point.add (p q : Point) : Point :=
  if p.z = 0 then q
  else if q.z = 0 then p
  else
    let pz := p.z * p.z % fieldSize
    let qz := q.z * q.z % fieldSize
    let u := p.x * qz % fieldSize
    let s := p.y * (qz * q.z % fieldSize) % fieldSize
    let h := sub (q.x * pz) u
    let r := sub (q.y * (pz * p.z % fieldSize)) s
    if h = 0 then
      if r = 0 then p.double else zero
    else
      let hh := h * h % fieldSize
      let hhh := h * hh % fieldSize
      let v := u * hh % fieldSize
      let x := sub (r * r) (hhh + 2 * v)
      ⟨x, sub (r * sub v x) (s * hhh), h * (p.z * q.z % fieldSize) % fieldSize⟩

/-- The point of a private key: that multiple of the generator. -/
def Scalar.point (a : Scalar) : Point :=
  (List.range 256).foldr
    (fun i p => if a.val.testBit i then p.double.add .generator else p.double) .zero

/-- A point as 33 bytes: the parity of `y`, and `x`. -/
def Point.compressed (p : Point) : Bytes :=
  let inverse := powMod fieldSize p.z (fieldSize - 2)
  let square := inverse * inverse % fieldSize
  let x := p.x * square % fieldSize
  let y := p.y * (square * inverse % fieldSize) % fieldSize
  (if y % 2 = 0 then 0x02 else 0x03) :: bigEndian 32 x

end OneTimeSig.Secp256k1
