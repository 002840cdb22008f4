import LedgerClient.Calendar
import LedgerClient.Der.Lenient
/-!
# Times of a certificate

A two-digit year with optional seconds, or a four-digit year with optional seconds and thousandths;
both end in `Z` and name a day of the calendar.
-/
namespace LedgerClient.X509

def clockOk (h m s : Nat) : Bool := h ≤ 23 && m ≤ 59 && s ≤ 59

def digit? (b : UInt8) : Option Nat :=
  if 0x30 ≤ b && b ≤ 0x39 then some (b.toNat - 0x30) else none

/-- Two digits and the bytes after them. -/
def pair : List UInt8 → Option (Nat × List UInt8)
  | a :: b :: r => match digit? a, digit? b with
    | some x, some y => some (10 * x + y, r)
    | _, _ => none
  | _ => none

def letterZ : UInt8 := 0x5A

/-- The seconds may be left out. -/
def seconds (s : List UInt8) : Option (Nat × List UInt8) :=
  match s with
  | _ :: _ :: _ => pair s
  | _ => some (0, s)

/-- A point and up to three digits. -/
def dropFraction : List UInt8 → List UInt8
  | 0x2E :: r =>
    let n := (r.takeWhile fun b => (digit? b).isSome).length
    if n ≤ 3 then r.drop n else r
  | s => s

def shortTimeOk (s : List UInt8) : Bool :=
  (do
    let (y, s) ← pair s
    let (mo, s) ← pair s
    let (d, s) ← pair s
    let (h, s) ← pair s
    let (mi, s) ← pair s
    let (se, s) ← seconds s
    let year := if y < 50 then 2000 + y else 1900 + y
    pure (Calendar.isDay year mo d && clockOk h mi se && s = [letterZ])) = some true

def longTimeOk (s : List UInt8) : Bool :=
  (do
    let (c, s) ← pair s
    let (y, s) ← pair s
    let (mo, s) ← pair s
    let (d, s) ← pair s
    let (h, s) ← pair s
    let (mi, s) ← pair s
    let (se, s) ← seconds s
    pure (Calendar.isDay (100 * c + y) mo d && clockOk h mi se && dropFraction s = [letterZ])) = some true

def tagShortTime : Nat := 23
def tagLongTime : Nat := 24

/-- The bytes after a time. -/
def time (s : List UInt8) : Option (List UInt8) :=
  match Der.element s with
  | some (e, r) =>
    if e.tag = tagShortTime && shortTimeOk e.contents then some r
    else if e.tag = tagLongTime && longTimeOk e.contents then some r
    else none
  | none => none

end LedgerClient.X509
