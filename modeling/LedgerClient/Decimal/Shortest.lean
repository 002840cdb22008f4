/-!
# Shortest decimals

The fewest digits that read back as a given double.  A finite double is `m · 2 ^ q`, and the reals
that round to it form an interval around it (ends included exactly when `m` is even).  On the grid
of `n`-digit decimals only the two neighbours of the value can lie in that interval, so trying
`n = 1, 2, …` finds the shortest, and of two hits the nearer one is taken.  All of it is exact
arithmetic on natural numbers.
-/
namespace LedgerClient.Decimal

/-- A positive rational, `num / den`. -/
structure Ratio where
  num : Nat
  den : Nat

def Ratio.le (a b : Ratio) : Bool := a.num * b.den ≤ b.num * a.den

def Ratio.lt (a b : Ratio) : Bool := a.num * b.den < b.num * a.den

/-- `n · b ^ e`. -/
def Ratio.scaled (n b : Nat) : Int → Ratio
  | .ofNat e => ⟨n * b.pow e, 1⟩
  | .negSucc e => ⟨n, b.pow (e + 1)⟩

/-! ## The interval of a double -/

/-- The reals that round to `mid`, with `closed` ends or without. -/
structure Interval where
  low : Ratio
  mid : Ratio
  high : Ratio
  closed : Bool

def Interval.mem (i : Interval) (r : Ratio) : Bool :=
  if i.closed then i.low.le r && r.le i.high else i.low.lt r && r.lt i.high

/-- How many values the fraction field takes; it has 52 bits. -/
def fractions : Nat := 0x10000000000000

/-- The interval of the finite positive double with these exponent and fraction fields.  Below a
power of two the neighbours stand twice as close as above it. -/
def Interval.ofFields (e f : Nat) : Interval :=
  let m := if e = 0 then f else fractions + f
  let q : Int := (max e 1 : Nat) - 1075
  let below := if f = 0 && 1 < e then 1 else 2
  ⟨.scaled (4 * m - below) 2 (q - 2), .scaled (4 * m) 2 (q - 2), .scaled (4 * m + 2) 2 (q - 2),
    m % 2 == 0⟩

/-! ## The search -/

/-- The exponent of the first digit. -/
def magnitude (r : Ratio) : Int :=
  match (List.range 640).find? fun (k : Nat) => r.lt (.scaled 1 10 (k - 323)) with
  | some k => (k : Int) - 324
  | none => 0

/-- The `n`-digit decimal in the interval that is nearest to its middle, if there is one. -/
def hit? (i : Interval) (e : Int) (n : Nat) : Option Nat :=
  let step := e - (n : Int) + 1
  let unit := Ratio.scaled 1 10 step
  let lower := i.mid.num * unit.den / (i.mid.den * unit.num)
  let here := i.mem (.scaled lower 10 step)
  let above := i.mem (.scaled (lower + 1) 10 step)
  if here && above then
    let twice := Ratio.scaled (2 * lower + 1) 10 step
    let mid := { i.mid with num := 2 * i.mid.num }
    if mid.lt twice || (!twice.lt mid && lower % 2 == 0) then some lower else some (lower + 1)
  else if here then some lower
  else if above then some (lower + 1)
  else none

/-- The digits as a number, and the power of ten of the last one. -/
def shortestFrom (i : Interval) (e : Int) : Nat → Nat → Nat × Int
  | 0, n => (0, e - n)
  | k + 1, n => match hit? i e n with
    | some d => (d, e - n + 1)
    | none => shortestFrom i e k (n + 1)

/-- Eighteen digits are more than any double needs. -/
def shortest (i : Interval) : Nat × Int := shortestFrom i (magnitude i.mid) 18 1

end LedgerClient.Decimal
