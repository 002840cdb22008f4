import LedgerClient.Decimal.Shortest
/-!
# Doubles as text, and text as doubles

A `Style` says between which exponents a number is written positionally; outside of them it is
written with one digit before the point and a signed exponent.  Whole numbers keep `.0`.
-/
namespace LedgerClient.Decimal

/-- `positional e` is asked of the exponent of the first digit. -/
structure Style where
  positional : Int → Bool

def zeros (n : Nat) : List Char := List.replicate n '0'

def positionalText (ds : List Char) (e : Int) : List Char :=
  let n := ds.length
  if e < 0 then '0' :: '.' :: zeros (e.natAbs - 1) ++ ds
  else if n ≤ e.natAbs + 1 then ds ++ zeros (e.natAbs + 1 - n) ++ ['.', '0']
  else ds.take (e.natAbs + 1) ++ '.' :: ds.drop (e.natAbs + 1)

def scientificText (ds : List Char) (e : Int) : List Char :=
  let mantissa := match ds with
    | [] => []
    | [d] => [d]
    | d :: r => d :: '.' :: r
  let sign := if e < 0 then '-' else '+'
  mantissa ++ 'e' :: sign :: (toString e.natAbs).toList

def dropZeros (ds : List Char) : List Char := (ds.reverse.dropWhile (· == '0')).reverse

def Style.digits (s : Style) (d : Nat) (k : Int) : List Char :=
  let all := (toString d).toList
  let e := k + all.length - 1
  let ds := dropZeros all
  if s.positional e then positionalText ds e else scientificText ds e

def Style.render (s : Style) (x : Float) : String :=
  let bits := x.toBits.toNat
  let e := bits / fractions % 0x800
  let f := bits % fractions
  let negative := 0x8000000000000000 ≤ bits
  if e = 2047 && f ≠ 0 then "NaN"
  else
    let body := if e = 2047 then ['i', 'n', 'f']
      else if e = 0 && f = 0 then ['0', '.', '0']
      else
        let (d, k) := shortest (.ofFields e f)
        s.digits d k
    String.ofList (if negative then '-' :: body else body)

/-- Every double in full. -/
def Style.full : Style := ⟨fun _ => true⟩

/-- From a hundred-thousandth to sixteen digits before the point in full, else with an
exponent. -/
def Style.compact : Style := ⟨fun e => -5 ≤ e && e ≤ 15⟩

/-! ## Reading -/

/-- The double nearest to `m · 10 ^ e`.  Exponents far outside the range of doubles are answered
without computing the power. -/
def nearest (m : Nat) (e : Int) : Float :=
  let size := e + (toString m).length
  if m = 0 || size < -400 then 0.0
  else if 400 < size then 1.0 / 0.0
  else if e < 0 then Float.ofScientific m true e.natAbs
  else Float.ofScientific m false e.natAbs

end LedgerClient.Decimal
