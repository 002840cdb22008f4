/-!
# Variable-length numbers

A number is written seven bits a byte, the lowest first; a byte of 128 or more is not the last.
Numbers have 64 bits, so the tenth byte holds one bit and is the last there can be.
-/
namespace LedgerClient.Wire

/-- `fuel` bounds the bytes after the first. -/
def varintFrom : Nat → Nat → List UInt8
  | 0, n => [UInt8.ofNat n]
  | k + 1, n =>
    if n < 128 then [UInt8.ofNat n] else UInt8.ofNat (128 + n % 128) :: varintFrom k (n / 128)

def varint (n : Nat) : List UInt8 := varintFrom 9 n

/-- Reads a number of at most `k` bytes and a last one that holds one bit. -/
def readVarintFrom : Nat → List UInt8 → Option (Nat × List UInt8)
  | 0, b :: r => if b < 2 then some (b.toNat, r) else none
  | k + 1, b :: r =>
    if b < 128 then some (b.toNat, r)
    else match readVarintFrom k r with
      | some (n, t) => some (b.toNat - 128 + 128 * n, t)
      | none => none
  | _, [] => none

def readVarint (s : List UInt8) : Option (Nat × List UInt8) := readVarintFrom 9 s

end LedgerClient.Wire
