import LedgerClient.Decimal.Digits
import LedgerClient.Text.Hex
import LedgerClient.Text.Split
/-!
# Host names and addresses

The names under which a peer can be expected: a numeric address of either family, or a name of
labels separated by dots.
-/
namespace LedgerClient.Network

/-! ## Numeric addresses -/

/-- A number up to 255 without leading zeros. -/
def isOctet (s : List Char) : Bool :=
  !s.isEmpty && s.length ≤ 3 && s.all Char.isDigit && (s.length = 1 || s.head? ≠ some '0')
    && Decimal.number s ≤ 255

def isIpv4 (s : List Char) : Bool :=
  let parts := Text.splitAll '.' s
  parts.length = 4 && parts.all isOctet

def isHexGroup (s : List Char) : Bool := !s.isEmpty && s.length ≤ 4 && s.all fun c => (Hex.value? c).isSome

/-- How many of the eight groups the parts stand for; the last part may be an address of four
numbers, which counts twice, if `dotted`. -/
def groupCount? (dotted : Bool) : List (List Char) → Option Nat
  | [] => some 0
  | [p] => if isHexGroup p then some 1 else if dotted && isIpv4 p then some 2 else none
  | p :: ps => if isHexGroup p then (groupCount? dotted ps).map (· + 1) else none

/-- The groups between colons; no text has none. -/
def groups (s : List Char) : List (List Char) := if s.isEmpty then [] else Text.splitAll ':' s

/-- Eight groups, or fewer with one run of zeros left out. -/
def isIpv6 (s : List Char) : Bool :=
  match Text.splitFirst? [':', ':'] s with
  | none => groupCount? true (groups s) = some 8
  | some (a, b) => match groupCount? false (groups a), groupCount? true (groups b) with
    | some m, some n => m + n ≤ 7
    | _, _ => false

/-! ## Names -/

def isLabelChar (c : Char) : Bool := c.isAlphanum || c = '-' || c = '_'

def isLabel (s : List Char) : Bool :=
  !s.isEmpty && s.length ≤ 63 && s.all isLabelChar && s.head? ≠ some '-' && s.getLast? ≠ some '-'

/-- Labels of which the last is no number; a dot may stand at the end. -/
def isDnsName (s : List Char) : Bool :=
  let parts := Text.splitAll '.' s
  let labels := if parts.getLast? = some [] then parts.dropLast else parts
  s.length ≤ 253 && labels.all isLabel && match labels.getLast? with
    | some l => !l.all Char.isDigit
    | none => false

def isServerName (s : List Char) : Bool := isDnsName s || isIpv4 s || isIpv6 s

end LedgerClient.Network
