import LedgerClient.Decimal.Style
import LedgerClient.Document.Json.Token
/-!
# Numbers of JSON

A number is read only to be shown in an error, since no field of this library is a number.
Integers that fit 64 bits stay integers.  Any other number becomes a double: the leading digits
that fit 64 bits, times a power of ten, each step rounded.
-/
namespace LedgerClient.Json

open Document (Found)

def maxWord : Nat := 0xFFFFFFFFFFFFFFFF

/-- The digits at the front, as numbers, and what follows them. -/
def spanDigits : List UInt8 → List Nat × List UInt8
  | [] => ([], [])
  | b :: r =>
    if isDigit b then
      let (ds, t) := spanDigits r
      ((b.toNat - 0x30) :: ds, t)
    else ([], b :: r)

/-- Appends digits to `n` while the result fits 64 bits; also how many did not fit. -/
def append (n : Nat) : List Nat → Nat × Nat
  | [] => (n, 0)
  | d :: ds => if maxWord < n * 10 + d then (n, ds.length + 1) else append (n * 10 + d) ds

/-! ## Scaling -/

def tenTo (n : Nat) : Float := Float.ofScientific 1 false n

/-- `f · 10 ^ e`, downwards in steps of 308 at most. -/
def scale : Nat → Float → Int → Except Fault Float
  | 0, f, _ => .ok f
  | k + 1, f, e =>
    if 0 ≤ e then
      if 308 < e then (if f == 0.0 then .ok f else .error .numberOutOfRange)
      else
        let g := f * tenTo e.natAbs
        if g.isInf then .error .numberOutOfRange else .ok g
    else if -308 ≤ e then .ok (f / tenTo e.natAbs)
    else if f == 0.0 then .ok f
    else scale k (f / tenTo 308) (e + 308)

def double (negative : Bool) (n : Nat) (e : Int) : Except Fault Float :=
  (scale 8 (UInt64.ofNat n).toFloat e).map fun f => if negative then -f else f

/-! ## Parts -/

/-- The exponent part after its letter; `e` is the exponent so far. -/
def readExponent (negative : Bool) (n : Nat) (e : Int) (s : List UInt8) : Reading Float :=
  let (down, s) := match s with
    | b :: r => if b = 0x2B then (false, r) else if b = minus then (true, r) else (false, s)
    | [] => (false, s)
  match s with
  | [] => .error .endInValue
  | b :: _ =>
    if !isDigit b then .error .badNumber
    else
      let (ds, r) := spanDigits s
      let x : Nat := ds.foldl (fun a d => a * 10 + d) 0
      if 0x7FFFFFFF < x then
        if n ≠ 0 && !down then .error .numberOutOfRange
        else .ok (if negative then -0.0 else 0.0, r)
      else (double negative n (if down then e - (x : Int) else e + (x : Int))).map (·, r)

def readTail (negative : Bool) (n : Nat) (e : Int) (s : List UInt8) : Reading Float :=
  match s with
  | b :: r =>
    if b = 0x65 || b = 0x45 then readExponent negative n e r
    else (double negative n e).map (·, s)
  | [] => (double negative n e).map (·, s)

/-- The digits after the point. -/
def readFraction (negative : Bool) (n : Nat) (e : Int) (s : List UInt8) : Reading Float :=
  match spanDigits s with
  | ([], []) => .error .endInValue
  | ([], _ :: _) => .error .badNumber
  | (ds, r) =>
    let (m, lost) := append n ds
    readTail negative m (e - (ds.length - lost : Nat)) r

def wordSized (negative : Bool) (n : Nat) : Found :=
  if !negative then .integer n
  else if n = 0 || 0x8000000000000000 < n then .real (Decimal.Style.compact.render (-(UInt64.ofNat n).toFloat))
  else .integer (-n)

/-- A number after its sign. -/
def readNumber (negative : Bool) (s : List UInt8) : Reading Found :=
  match s with
  | [] => .error .endInValue
  | b :: r =>
    if !isDigit b then .error .badNumber
    else if b = 0x30 && r.head?.any isDigit then .error .badNumber
    else
      let (ds, t) := spanDigits s
      let (n, lost) := append 0 ds
      let shown := fun (p : Float × List UInt8) => (Found.real (Decimal.Style.compact.render p.1), p.2)
      match t with
      | c :: u =>
        if c = 0x2E then (readFraction negative n lost u).map shown
        else if c = 0x65 || c = 0x45 || lost ≠ 0 then (readTail negative n lost t).map shown
        else .ok (wordSized negative n, t)
      | [] =>
        if lost ≠ 0 then (readTail negative n lost t).map shown else .ok (wordSized negative n, t)

/-! ## Skipping -/

def skipDigits (s : List UInt8) : List UInt8 := s.dropWhile isDigit

def skipExponent (s : List UInt8) : Except Fault (List UInt8) :=
  let s := match s with
    | b :: r => if b = 0x2B || b = minus then r else s
    | [] => s
  if s.head?.any isDigit then .ok (skipDigits s) else .error .badNumber

def skipTail : List UInt8 → Except Fault (List UInt8)
  | [] => .ok []
  | b :: r => if b = 0x65 || b = 0x45 then skipExponent r else .ok (b :: r)

/-- A skipped number, after its sign: only its form matters, not its size. -/
def skipNumber (s : List UInt8) : Except Fault (List UInt8) :=
  match s with
  | [] => .error .badNumber
  | b :: r =>
    if !isDigit b || (b = 0x30 && r.head?.any isDigit) then .error .badNumber
    else match skipDigits s with
      | [] => .ok []
      | c :: t =>
        if c = 0x2E then
          if t.head?.any isDigit then skipTail (skipDigits t) else .error .badNumber
        else skipTail (c :: t)

end LedgerClient.Json
