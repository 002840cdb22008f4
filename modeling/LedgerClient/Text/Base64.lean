/-!
# Base64

The standard alphabet.  `encode` pads; `decode` takes text with or without padding, but padding
that is there has to be right, and ignores the bits left over in a last partial group.
-/
namespace LedgerClient.Base64

def symbol (n : Nat) : UInt8 :=
  if n < 26 then UInt8.ofNat (0x41 + n)
  else if n < 52 then UInt8.ofNat (0x47 + n)
  else if n < 62 then UInt8.ofNat (n - 4)
  else if n = 62 then 0x2B
  else 0x2F

def symbol? (b : UInt8) : Option Nat :=
  if 0x41 ≤ b && b ≤ 0x5A then some (b.toNat - 0x41)
  else if 0x61 ≤ b && b ≤ 0x7A then some (b.toNat - 0x47)
  else if 0x30 ≤ b && b ≤ 0x39 then some (b.toNat + 4)
  else if b = 0x2B then some 62
  else if b = 0x2F then some 63
  else none

def pad : UInt8 := 0x3D

def encode : List UInt8 → List UInt8
  | [] => []
  | [a] => [symbol (a.toNat / 4), symbol (a.toNat % 4 * 16), pad, pad]
  | [a, b] =>
    [symbol (a.toNat / 4), symbol (a.toNat % 4 * 16 + b.toNat / 16),
      symbol (b.toNat % 16 * 4), pad]
  | a :: b :: c :: r =>
    symbol (a.toNat / 4) :: symbol (a.toNat % 4 * 16 + b.toNat / 16)
      :: symbol (b.toNat % 16 * 4 + c.toNat / 64) :: symbol (c.toNat % 64) :: encode r

/-! ## Reading -/

inductive Fault where
  | badSymbol (b : UInt8)
  | earlyPadding
  | badPadding
deriving DecidableEq, Repr

def Fault.message : Fault → String
  | .badSymbol b => s!"InvalidCharacter({b.toNat})"
  | .earlyPadding => "PrematurePadding"
  | .badPadding => "InvalidTrailingPadding"

def isSpace (b : UInt8) : Bool := (9 ≤ b && b ≤ 13) || b = 0x20

/-- The value of a symbol, `none` for padding. -/
def sextet (b : UInt8) : Except Fault (Option Nat) :=
  if b = pad then .ok none
  else match symbol? b with
    | some n => .ok (some n)
    | none => .error (.badSymbol b)

/-- Whole groups of four give three bytes; a last group of three or two gives two bytes or one. -/
def octets : List Nat → List UInt8
  | a :: b :: c :: d :: r =>
    UInt8.ofNat (a * 4 + b / 16) :: UInt8.ofNat (b * 16 + c / 4) :: UInt8.ofNat (c * 64 + d)
      :: octets r
  | [a, b, c] => [UInt8.ofNat (a * 4 + b / 16), UInt8.ofNat (b * 16 + c / 4)]
  | [a, b] => [UInt8.ofNat (a * 4 + b / 16)]
  | _ => []

def lastGroup : List (Option Nat) → Except Fault (List UInt8)
  | [] => .ok []
  | [some a, some b] | [some a, some b, none, none] => .ok (octets [a, b])
  | [some a, some b, some c] | [some a, some b, some c, none] => .ok (octets [a, b, c])
  | [some a, some b, some c, some d] => .ok (octets [a, b, c, d])
  | _ => .error .badPadding

/-- The end of the text, at most eight symbols. -/
def lastBlock (s : List (Option Nat)) : Except Fault (List UInt8) :=
  if s.length ≤ 4 then lastGroup s
  else if none ∈ s.take 4 then .error .earlyPadding
  else (lastGroup (s.drop 4)).map (octets ((s.take 4).filterMap id) ++ ·)

/-- Symbols are gathered in blocks of eight, and padding in a block is early as soon as a symbol
follows the block.  `block` holds the symbols since the last whole one. -/
def decodeFrom (block : List (Option Nat)) : List UInt8 → Except Fault (List UInt8)
  | [] => lastBlock block
  | b :: r =>
    if isSpace b then decodeFrom block r
    else match sextet b with
      | .error f => .error f
      | .ok s =>
        if block.length < 8 then decodeFrom (block ++ [s]) r
        else if none ∈ block then .error .earlyPadding
        else (decodeFrom [s] r).map (octets (block.filterMap id) ++ ·)

def decode (s : List UInt8) : Except Fault (List UInt8) := decodeFrom [] s

end LedgerClient.Base64
