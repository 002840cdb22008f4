import LedgerClient.Crypto.P256
/-!
# The written forms of a private key

A key is written bare, or wrapped with the algorithm it is for.  Both forms are strict.
-/
namespace LedgerClient.P256

open Der.Strict

/-- The bytes after optional fields below number `n`, all of them context-specific. -/
def skipFields (n : Nat) : Nat → List UInt8 → Option (List UInt8)
  | 0, s => some s
  | k + 1, s => match s with
    | [] => some []
    | b :: _ =>
      if b.toNat / 64 = 2 && b.toNat % 32 < n then
        match Der.Strict.element s with
        | some (_, _, r) => skipFields n k r
        | none => none
      else some s

/-- The contents of the optional field number `n` in explicit form, and the bytes after it. -/
def field (n : Nat) (s : List UInt8) : Option (Option (List UInt8) × List UInt8) :=
  match skipFields n s.length s with
  | none => none
  | some [] => some (none, [])
  | some (b :: r) =>
    if b.toNat / 64 = 2 && b.toNat % 32 = n then
      match expect (idField n) (b :: r) with
      | some (c, t) => some (some c, t)
      | none => none
    else some (none, b :: r)

/-- 24 to 32 bytes, padded on the left. -/
def scalar? (bs : List UInt8) : Option PrivateKey :=
  if 24 ≤ bs.length && bs.length ≤ 32 then PrivateKey.ofNat? (Der.ofBigEndian bs) else none

/-- A public key beside the private one has to be its own. -/
def publicOk (k : PrivateKey) : Option (List UInt8) → Bool
  | none => true
  | some c => match (whole idBits c).bind octetBits? with
    | none => false
    | some bs => bs = encodePoint true k.publicPoint || bs = encodePoint false k.publicPoint

def curveOk : Option (List UInt8) → Bool
  | none => true
  | some c => (whole idObject c).any objectOk

/-- The bare form: version 1, the scalar, and optionally the curve and the public key. -/
def ofBare? (s : List UInt8) : Option PrivateKey := do
  let c ← whole idSequence s
  let (v, c) ← readUnsigned c
  let (x, c) ← expect idOctets c
  let (curve, c) ← field 0 c
  let (pub, c) ← field 1 c
  let k ← scalar? x
  if v = 1 && curveOk curve && c.isEmpty && publicOk k pub then some k else none

/-! ## The wrapped form -/

def idEcPublicKey : List UInt8 := [0x2A, 0x86, 0x48, 0xCE, 0x3D, 0x02, 0x01]

def idPrime256v1 : List UInt8 := [0x2A, 0x86, 0x48, 0xCE, 0x3D, 0x03, 0x01, 0x07]

def algorithmOk (c : List UInt8) : Bool :=
  (do
    let (o, c) ← expect idObject c
    let curve ← whole idObject c
    pure (o = idEcPublicKey && curve = idPrime256v1)) = some true

/-- The fields at the end are context-specific and hold one element each. -/
def restOk : Nat → List UInt8 → Bool
  | _, [] => true
  | 0, _ => false
  | k + 1, s => match Der.Strict.element s with
    | some (b, c, r) =>
      b.toNat / 32 = 5 && (match Der.Strict.element c with
        | some (_, _, []) => true
        | _ => false) && restOk k r
    | none => false

/-- The optional public key, field 1 in implicit form. -/
def wrappedPublic (s : List UInt8) : Option (Bool × List UInt8) :=
  match skipFields 1 s.length s with
  | none => none
  | some [] => some (false, [])
  | some (b :: r) =>
    if b.toNat / 64 = 2 && b.toNat % 32 = 1 then
      match expect 0x81 (b :: r) with
      | some (c, t) => (octetBits? c).map fun _ => (true, t)
      | none => none
    else some (false, b :: r)

/-- Version 0 without a public key or version 1 with one, the algorithm, and the bare form. -/
def ofWrapped? (s : List UInt8) : Option PrivateKey := do
  let c ← whole idSequence s
  let (v, c) ← readUnsigned c
  let (a, c) ← expect idSequence c
  let (x, c) ← expect idOctets c
  let (pub, c) ← wrappedPublic c
  if v = (if pub then 1 else 0) && algorithmOk a && restOk c.length c then ofBare? x else none

end LedgerClient.P256
