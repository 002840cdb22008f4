import LedgerClient.Text.Quoted
/-!
# Hexadecimal text

Two lowercase digits a byte.  Reading takes digits of either case and works on the bytes of the
text: an odd number of them is refused before any digit is looked at, then the first byte that is
no digit.
-/
namespace LedgerClient.Hex

def digit (n : Nat) : Char := if n < 10 then Char.ofNat (0x30 + n) else Char.ofNat (0x57 + n)

def encode : List UInt8 → List Char
  | [] => []
  | b :: r => digit (b.toNat / 16) :: digit (b.toNat % 16) :: encode r

def digit? (b : UInt8) : Option Nat :=
  if 0x30 ≤ b && b ≤ 0x39 then some (b.toNat - 0x30)
  else if 0x61 ≤ b && b ≤ 0x66 then some (b.toNat - 0x57)
  else if 0x41 ≤ b && b ≤ 0x46 then some (b.toNat - 0x37)
  else none

/-- The value of a digit of either case. -/
def value? (c : Char) : Option Nat := if c.toNat < 128 then digit? (UInt8.ofNat c.toNat) else none

inductive Fault where
  | odd
  | notDigit (b : UInt8) (i : Nat)
deriving DecidableEq, Repr

def Fault.message : Fault → String
  | .odd => "Odd number of digits"
  | .notDigit b i =>
    s!"Invalid character {Text.quotedChar (Char.ofNat b.toNat)} at position {i}"

/-- The bytes spelled by the digits from position `i` on. -/
def pairs : Nat → List UInt8 → Except Fault (List UInt8)
  | i, a :: b :: r => match digit? a, digit? b with
    | some x, some y => (pairs (i + 2) r).map (UInt8.ofNat (16 * x + y) :: ·)
    | none, _ => .error (.notDigit a i)
    | _, none => .error (.notDigit b (i + 1))
  | _, _ => .ok []

def decode (s : List UInt8) : Except Fault (List UInt8) :=
  if s.length % 2 = 1 then .error .odd else pairs 0 s

end LedgerClient.Hex

namespace LedgerClient

def hex (bs : List UInt8) : String := String.ofList (Hex.encode bs)

end LedgerClient
