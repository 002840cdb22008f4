import LedgerClient.Trace.Event
/-!
# Metrics

Every call counts once under its operation and outcome and gives one sample of its duration; a
failed call counts once more under the kind of its error.
-/
namespace LedgerClient

inductive Metric where
  | call (op : Operation) (success : Bool)
  | duration (op : Operation)
  | failure (kind : String)
deriving DecidableEq, Repr

def Metric.outcome (success : Bool) : String := if success then "success" else "failure"

def Metric.describe : Metric → String
  | .call op ok =>
    "counter ledger_bridge_calls_total\x7boperation=" ++ op.name ++ ",outcome=" ++ outcome ok
      ++ "\x7d +1"
  | .duration op =>
    "histogram ledger_bridge_call_duration_seconds\x7boperation=" ++ op.name ++ "\x7d sample"
  | .failure k => "counter ledger_bridge_gateway_errors_total\x7bkind=" ++ k ++ "\x7d +1"

end LedgerClient
