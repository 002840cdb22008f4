import LedgerClient.Crypto.Ecdsa
/-!
# The curve P-256

Points of `y² = x³ - 3x + b` over the field of a 256-bit prime.  A point is zero or a pair of
coordinates; multiples are computed on projective triples, where adding takes no division, and
brought back at the end.
-/
namespace LedgerClient.P256

def p : Nat := 0xFFFFFFFF00000001000000000000000000000000FFFFFFFFFFFFFFFFFFFFFFFF

def order : Nat :=
  115792089210356248762697446949407573529996955224135760342422259061068512044369

/-- A point other than zero holds its coordinates. -/
abbrev Point := Option (Nat × Nat)

def base : Point := some
  (48439561293906451759052585252797914202762949526041747995844080717082404635286,
    36134250956749795798585127919587881956611106672985015071877198253568414405109)

/-! ## Projective triples -/

/-- Stands for `(x / z², y / z³)`, and for zero when `z` is zero. -/
structure Triple where
  x : Nat
  y : Nat
  z : Nat

def Triple.zero : Triple := ⟨1, 1, 0⟩

def sub (a b : Nat) : Nat := (a + (p - b)) % p

def Triple.double (t : Triple) : Triple :=
  if t.z = 0 then t
  else
    let zz := t.z * t.z % p
    let yy := t.y * t.y % p
    let s := 4 * t.x * yy % p
    let m := 3 * (sub t.x zz * (t.x + zz)) % p
    let x := sub (m * m % p) (2 * s % p)
    ⟨x, sub (m * sub s x % p) (8 * (yy * yy) % p), 2 * t.y * t.z % p⟩

def Triple.add (t u : Triple) : Triple :=
  if t.z = 0 then u
  else if u.z = 0 then t
  else
    let tz := t.z * t.z % p
    let uz := u.z * u.z % p
    let a := t.x * uz % p
    let b := u.x * tz % p
    let c := t.y * uz % p * u.z % p
    let d := u.y * tz % p * t.z % p
    let h := sub b a
    let r := sub d c
    if h = 0 then if r = 0 then t.double else .zero
    else
      let hh := h * h % p
      let hhh := h * hh % p
      let v := a * hh % p
      let x := sub (sub (r * r % p) hhh) (2 * v % p)
      ⟨x, sub (r * sub v x % p) (c * hhh % p), t.z * u.z % p * h % p⟩

def Triple.ofPoint : Point → Triple
  | none => .zero
  | some (x, y) => ⟨x, y, 1⟩

def Triple.toPoint (t : Triple) : Point :=
  if t.z = 0 then none
  else
    let i := Ecdsa.inverse t.z p
    let ii := i * i % p
    some (t.x * ii % p, t.y * ii % p * i % p)

/-! ## The group -/

def add (a b : Point) : Point := ((Triple.ofPoint a).add (.ofPoint b)).toPoint

/-- Doubles for each binary digit, the first one first, and adds for each one among them; `bits`
counts the digits. -/
def multiple (t : Triple) (k : Nat) : Nat → Triple
  | 0 => .zero
  | i + 1 =>
    let d := (multiple t (k / 2) i).double
    if k % 2 = 1 then d.add t else d

def mul (k : Nat) (a : Point) : Point :=
  (multiple (.ofPoint a) k (k.log2 + 1)).toPoint

def group : PointGroup := ⟨Point, base, order, add, mul, fun a => a.map Prod.fst⟩

/-! ## Keys -/

structure PrivateKey where
  scalar : Nat
  pos : 0 < scalar
  lt : scalar < order

def PrivateKey.ofNat? (n : Nat) : Option PrivateKey :=
  if h : 0 < n ∧ n < order then some ⟨n, h.1, h.2⟩ else none

def PrivateKey.publicPoint (k : PrivateKey) : Point := mul k.scalar base

/-- The bytes of a point: both coordinates, or one and the parity of the other. -/
def encodePoint (compressed : Bool) : Point → List UInt8
  | none => [0]
  | some (x, y) =>
    if compressed then (if y % 2 = 0 then 2 else 3) :: Ecdsa.bytes32 x
    else 4 :: Ecdsa.bytes32 x ++ Ecdsa.bytes32 y

end LedgerClient.P256
