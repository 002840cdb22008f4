/-!
# Deadlines on the wire

A deadline travels with its request as a number of at most eight digits and a unit: the finest
unit that leaves no more digits, cut down to a whole number of it.
-/
namespace LedgerClient.Gateway

inductive TimeUnit where
  | nanosecond
  | microsecond
  | millisecond
  | second
  | minute
  | hour
deriving DecidableEq, Repr

def TimeUnit.letter : TimeUnit → Char
  | .nanosecond => 'n'
  | .microsecond => 'u'
  | .millisecond => 'm'
  | .second => 'S'
  | .minute => 'M'
  | .hour => 'H'

def TimeUnit.nanoseconds : TimeUnit → Nat
  | .nanosecond => 1
  | .microsecond => 1000
  | .millisecond => 1000000
  | .second => 1000000000
  | .minute => 60000000000
  | .hour => 3600000000000

/-- The finest first. -/
def TimeUnit.all : List TimeUnit := [.nanosecond, .microsecond, .millisecond, .second, .minute, .hour]

structure WireDeadline where
  count : Nat
  unit : TimeUnit
deriving DecidableEq, Repr

def maxCount : Nat := 99999999

/-- What `secs` is in the unit `u`, cut down. -/
def inUnit (secs : Nat) (u : TimeUnit) : Nat := secs * 1000000000 / u.nanoseconds

def WireDeadline.ofSeconds? (secs : Nat) : Option WireDeadline :=
  (TimeUnit.all.find? fun u => inUnit secs u ≤ maxCount).map fun u => ⟨inUnit secs u, u⟩

def WireDeadline.render (d : WireDeadline) : String := s!"{d.count}{d.unit.letter}"

def WireDeadline.nanoseconds (d : WireDeadline) : Nat := d.count * d.unit.nanoseconds

end LedgerClient.Gateway
