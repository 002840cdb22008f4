import LedgerClient.Error.Phase
/-!
# Deadlines

How many seconds each phase of a call may take, and connecting.
-/
namespace LedgerClient.Config

structure Timeouts where
  evaluate : Nat := 5
  endorse : Nat := 15
  submit : Nat := 5
  commitStatus : Nat := 60
  connect : Nat := 10
deriving DecidableEq, Repr, Inhabited

def Timeouts.phase (t : Timeouts) : Phase → Nat
  | .evaluate => t.evaluate
  | .endorse => t.endorse
  | .submit => t.submit
  | .commitStatus => t.commitStatus

/-- The fields by name, in order. -/
def Timeouts.fields (t : Timeouts) : List (String × Nat) :=
  [("evaluate_secs", t.evaluate), ("endorse_secs", t.endorse), ("submit_secs", t.submit),
    ("commit_status_secs", t.commitStatus), ("connect_secs", t.connect)]

def Timeouts.describe (t : Timeouts) : String :=
  let inner := ", ".intercalate (t.fields.map fun (n, v) => s!"{n}: {v}")
  "GatewayTimeouts \x7b " ++ inner ++ " \x7d"

end LedgerClient.Config
