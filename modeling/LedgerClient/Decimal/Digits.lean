/-!
# Numbers from digits

The first digit counts most.
-/
namespace LedgerClient.Decimal

def ofDigits (base : Nat) (ds : List Nat) : Nat := ds.foldl (fun n d => base * n + d) 0

def digitValue (c : Char) : Nat := c.toNat - '0'.toNat

/-- The number that decimal digits spell. -/
def number (cs : List Char) : Nat := ofDigits 10 (cs.map digitValue)

end LedgerClient.Decimal
