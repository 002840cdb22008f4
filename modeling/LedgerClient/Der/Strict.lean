import LedgerClient.Der.Lenient
/-!
# Tagged values, read strictly, and written

Keys and signatures have one written form only: identifiers of one byte, lengths in the fewest
bytes, integers without superfluous leading bytes, and nothing after the last value.
-/
namespace LedgerClient.Der.Strict

/-- The length in the fewest bytes. -/
def writeLength (n : Nat) : List UInt8 :=
  if n < 0x80 then [UInt8.ofNat n]
  else if n < 0x100 then [0x81, UInt8.ofNat n]
  else if n < 0x10000 then [0x82, UInt8.ofNat (n / 0x100), UInt8.ofNat n]
  else if n < 0x1000000 then
    [0x83, UInt8.ofNat (n / 0x10000), UInt8.ofNat (n / 0x100), UInt8.ofNat n]
  else
    [0x84, UInt8.ofNat (n / 0x1000000), UInt8.ofNat (n / 0x10000), UInt8.ofNat (n / 0x100),
      UInt8.ofNat n]

def maxLength : Nat := 0xFFFFFFF

def readLength (s : List UInt8) : Option (Nat × List UInt8) :=
  match Der.length s with
  | some (n, r) =>
    if n ≤ maxLength && (writeLength n).isPrefixOf s && r.length + (writeLength n).length = s.length
    then some (n, r) else none
  | none => none

/-- Identifier bytes that name a known type. -/
def knownId (b : UInt8) : Bool :=
  (0x40 ≤ b && b.toNat % 32 ≠ 31)
    || [0x01, 0x02, 0x03, 0x04, 0x05, 0x06, 0x09, 0x0A, 0x0C, 0x12, 0x13, 0x14, 0x15, 0x16, 0x17,
      0x18, 0x1A, 0x1B, 0x1D, 0x1E, 0x30, 0x31].contains b

/-- An identifier byte, the contents and the bytes after them. -/
def element (s : List UInt8) : Option (UInt8 × List UInt8 × List UInt8) :=
  match s with
  | [] => none
  | b :: r =>
    if !knownId b then none
    else match readLength r with
      | some (n, t) => if t.length < n then none else some (b, t.take n, t.drop n)
      | none => none

def expect (id : UInt8) (s : List UInt8) : Option (List UInt8 × List UInt8) :=
  match element s with
  | some (b, c, r) => if b = id then some (c, r) else none
  | none => none

/-- The contents of a document that is one element and no more. -/
def whole (id : UInt8) (s : List UInt8) : Option (List UInt8) :=
  match expect id s with
  | some (c, []) => some c
  | _ => none

def idInteger : UInt8 := 0x02
def idBits : UInt8 := 0x03
def idOctets : UInt8 := 0x04
def idObject : UInt8 := 0x06
def idSequence : UInt8 := 0x30

/-- A context-specific field in explicit form. -/
def idField (n : Nat) : UInt8 := UInt8.ofNat (0xA0 + n)

/-! ## Integers -/

/-- The bytes of a positive number, most significant first; `fuel` bounds their count. -/
def bigEndian : Nat → Nat → List UInt8
  | 0, _ => []
  | k + 1, n => if n = 0 then [] else bigEndian k (n / 256) ++ [UInt8.ofNat n]

/-- A number as integer contents: fewest bytes, with a zero byte in front where the top bit of the
first one would mark the number as negative. -/
def unsignedContents (n : Nat) : List UInt8 :=
  match bigEndian (n.log2 / 8 + 1) n with
  | [] => [0]
  | b :: r => if 0x80 ≤ b then 0 :: b :: r else b :: r

def unsigned? (c : List UInt8) : Option Nat :=
  match c with
  | [] => none
  | [b] => if b < 0x80 then some b.toNat else none
  | a :: b :: _ =>
    if 0x80 ≤ a || (a = 0 && b < 0x80) then none else some (ofBigEndian c)

def readUnsigned (s : List UInt8) : Option (Nat × List UInt8) :=
  match expect idInteger s with
  | some (c, r) => (unsigned? c).map (·, r)
  | none => none

/-! ## Object identifiers and bit strings -/

/-- Arcs after the first byte, seven bits a byte: the sixth and later bytes of an arc may only
hold four bits and have to end it. -/
def arcsOk : Nat → List UInt8 → Bool
  | k, [] => k = 0
  | k, b :: r =>
    if 5 ≤ k && 0x10 ≤ b then false
    else if b < 0x80 then arcsOk 0 r
    else arcsOk (k + 1) r

def objectOk (c : List UInt8) : Bool :=
  3 ≤ c.length && c.length ≤ 39 && c.headD 0 ≤ 119 && arcsOk 0 c.tail

/-- A bit string of whole bytes. -/
def octetBits? : List UInt8 → Option (List UInt8)
  | 0 :: r => some r
  | _ => none

/-! ## Writing -/

def write (id : UInt8) (c : List UInt8) : List UInt8 := id :: writeLength c.length ++ c

def writeUnsigned (n : Nat) : List UInt8 := write idInteger (unsignedContents n)

end LedgerClient.Der.Strict
