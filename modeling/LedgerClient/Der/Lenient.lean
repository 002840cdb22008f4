/-!
# Tagged values, read leniently

A value is an identifier, a length and that many bytes of contents.  This reader is the one for
certificates: identifiers may take several bytes, and lengths need not be written in the fewest
bytes.  Only where an element is passed over may its length be left open.
-/
namespace LedgerClient.Der

structure Element where
  cls : Nat
  constructed : Bool
  tag : Nat
  contents : List UInt8
deriving DecidableEq, Repr

/-- The tag number in the bytes after an identifier byte with all tag bits set; five such bytes at
most. -/
def longTag : Nat → Nat → List UInt8 → Option (Nat × List UInt8)
  | 0, _, _ => none
  | _, _, [] => none
  | k + 1, n, b :: r =>
    let m := (n * 128 + b.toNat % 128) % 0x100000000
    if b.toNat < 128 then some (m, r) else longTag k m r

def identifier : List UInt8 → Option (Element × List UInt8)
  | [] => none
  | b :: r =>
    let n := b.toNat
    let e : Element := ⟨n / 64, n / 32 % 2 = 1, n % 32, []⟩
    if n % 32 = 31 then (longTag 5 0 r).map fun (t, r) => ({ e with tag := t }, r) else some (e, r)

def ofBigEndian (bs : List UInt8) : Nat := bs.foldl (fun n b => n * 256 + b.toNat) 0

/-- A length of up to eight significant bytes. -/
def length : List UInt8 → Option (Nat × List UInt8)
  | [] => none
  | b :: r =>
    let n := b.toNat
    if n < 128 then some (n, r)
    else if n = 128 || n = 255 then none
    else
      let k := n - 128
      if r.length < k then none
      else
        let l := ofBigEndian (r.take k)
        if l < 0x10000000000000000 then some (l, r.drop k) else none

def header (s : List UInt8) : Option (Element × Nat × List UInt8) :=
  match identifier s with
  | none => none
  | some (e, r) => (length r).map fun (n, r) => (e, n, r)

/-- The element at the front and the bytes after it. -/
def element (s : List UInt8) : Option (Element × List UInt8) :=
  match header s with
  | none => none
  | some (e, n, r) =>
    if r.length < n then none else some ({ e with contents := r.take n }, r.drop n)

def tagInteger : Nat := 2
def tagBits : Nat := 3
def tagOctets : Nat := 4
def tagObject : Nat := 6
def tagSequence : Nat := 16
def tagSet : Nat := 17

/-- An element with this tag number; its class is not looked at. -/
def tagged (t : Nat) (s : List UInt8) : Option (Element × List UInt8) :=
  match element s with
  | some (e, r) => if e.tag = t then some (e, r) else none
  | none => none

def primitive (t : Nat) (s : List UInt8) : Option (List UInt8 × List UInt8) :=
  match tagged t s with
  | some (e, r) => if e.constructed then none else some (e.contents, r)
  | none => none

/-! ## Lengths left open

An element whose length is left open holds elements up to one with no tag and no contents. -/

/-- So many such elements do not stand in one another. -/
def openLimit : Nat := 50

/-- The bytes after the outermost of the elements left open, `k` of them.  `fuel` bounds the
elements to come. -/
def skipOpen : Nat → Nat → List UInt8 → Option (List UInt8)
  | _, 0, s => some s
  | 0, _ + 1, _ => none
  | fuel + 1, k + 1, s =>
    if openLimit ≤ k + 1 then none
    else match identifier s with
      | none => none
      | some (e, 0x80 :: r) => if e.constructed then skipOpen fuel (k + 2) r else none
      | some (e, r) => match length r with
        | none => none
        | some (n, r) =>
          if n = 0 && e.tag = 0 then skipOpen fuel k r
          else if r.length < n then none
          else skipOpen fuel (k + 1) (r.drop n)

/-- The bytes after an element with this tag number, of whatever length. -/
def skipTagged (t : Nat) (s : List UInt8) : Option (List UInt8) :=
  match identifier s with
  | some (e, 0x80 :: r) => if e.tag = t && e.constructed then skipOpen r.length 1 r else none
  | _ => (tagged t s).map Prod.snd

/-! ## Bit strings -/

/-- The contents of a bit string: a count of unused bits, which are zero, and the bytes. -/
def bitsOk : List UInt8 → Bool
  | [] => false
  | [u] => u = 0
  | u :: b :: r =>
    u ≤ 7 && ((b :: r).getLastD 0).toNat % (1 <<< u.toNat) = 0

def bits (s : List UInt8) : Option (List UInt8) :=
  match primitive tagBits s with
  | some (c, r) => if bitsOk c then some r else none
  | none => none

end LedgerClient.Der
