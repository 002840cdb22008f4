import LedgerClient.Crypto.Hmac
import LedgerClient.Der.Strict
/-!
# ECDSA

Signing and verifying over any group of prime order with a coordinate.  The secret number of a
signature is derived from key and message by an HMAC generator, so signing is a function.  A pair
`(r, s)` and `(r, n - s)` verify alike; `lowS` picks the smaller `s`.
-/
namespace LedgerClient

/-- What ECDSA asks of a group: multiples, sums and a coordinate of points other than zero. -/
structure PointGroup where
  Point : Type
  base : Point
  order : Nat
  add : Point → Point → Point
  mul : Nat → Point → Point
  abscissa? : Point → Option Nat

namespace Ecdsa

structure Signature where
  r : Nat
  s : Nat
deriving DecidableEq, Repr

/-! ## Arithmetic modulo the order -/

/-- Extended division: `a` and `b` with their coefficients of the starting number. -/
def inverseFrom : Nat → Int → Int → Int → Int → Int
  | 0, _, _, u, _ => u
  | k + 1, a, b, u, v => if b = 0 then u else inverseFrom k b (a % b) v (u - a / b * v)

/-- The inverse of `a` modulo a prime `n`. -/
def inverse (a n : Nat) : Nat := (inverseFrom (2 * n.log2 + 4) a n 1 0 % n).toNat

/-! ## The secret number -/

structure Generator where
  key : List UInt8
  value : List UInt8

def Generator.update (g : Generator) (tag : UInt8) (data : List UInt8) : Generator :=
  let k := hmac g.key (g.value ++ tag :: data)
  ⟨k, hmac k g.value⟩

def Generator.start (seed : List UInt8) : Generator :=
  ((⟨List.replicate 32 0, List.replicate 32 1⟩ : Generator).update 0 seed).update 1 seed

/-- The first value between one and the order; `fuel` bounds the tries. -/
def secretFrom (n : Nat) : Nat → Generator → Nat
  | 0, _ => 1
  | k + 1, g =>
    let v := hmac g.key g.value
    let x := Der.ofBigEndian v
    if 1 ≤ x && x < n then x else secretFrom n k (Generator.update ⟨g.key, v⟩ 0 [])

/-- A number as 32 bytes. -/
def bytes32 (n : Nat) : List UInt8 := Sha256.bigEndian 32 n

def secret (n key : Nat) (z : List UInt8) : Nat :=
  secretFrom n 64 (.start (bytes32 key ++ z))

/-! ## Signing -/

/-- The digest as 32 bytes: shorter ones are padded on the left, of longer ones the first 32 bytes
count, and fewer than 16 bytes are no digest. -/
def field? (digest : List UInt8) : Option (List UInt8) :=
  if digest.length < 16 then none
  else some (List.replicate (32 - digest.length) 0 ++ digest.take 32)

def signWith (g : PointGroup) (key k : Nat) (z : List UInt8) : Option Signature :=
  match g.abscissa? (g.mul k g.base) with
  | none => none
  | some x =>
    let r := x % g.order
    let s := inverse k g.order * (Der.ofBigEndian z + r * key) % g.order
    if r = 0 || s = 0 then none else some ⟨r, s⟩

def sign? (g : PointGroup) (key : Nat) (digest : List UInt8) : Option Signature :=
  (field? digest).bind fun z => signWith g key (secret g.order key z) z

def Signature.lowS (n : Nat) (σ : Signature) : Signature :=
  if n / 2 < σ.s then { σ with s := n - σ.s } else σ

/-! ## Verifying -/

def Signature.inRange (n : Nat) (σ : Signature) : Bool :=
  1 ≤ σ.r && σ.r < n && 1 ≤ σ.s && σ.s < n

def verify (g : PointGroup) (pub : g.Point) (digest : List UInt8) (σ : Signature) : Bool :=
  match field? digest with
  | none => false
  | some z =>
    let w := inverse σ.s g.order
    let p := g.add (g.mul (Der.ofBigEndian z * w % g.order) g.base)
      (g.mul (σ.r * w % g.order) pub)
    σ.inRange g.order && (g.abscissa? p).any fun x => x % g.order == σ.r

/-! ## The written form -/

def Signature.encode (σ : Signature) : List UInt8 :=
  Der.Strict.write Der.Strict.idSequence
    (Der.Strict.writeUnsigned σ.r ++ Der.Strict.writeUnsigned σ.s)

def Signature.decode? (bs : List UInt8) : Option Signature := do
  let c ← Der.Strict.whole Der.Strict.idSequence bs
  let (r, t) ← Der.Strict.readUnsigned c
  let (s, t) ← Der.Strict.readUnsigned t
  if t.isEmpty then some ⟨r, s⟩ else none

end Ecdsa
end LedgerClient
