import LedgerClient.Client.Boundary
/-!
# Installing a log

A process has at most one log.  The first request installs it, whatever the filter says: one that
cannot be used is replaced by a plain one.  Later requests leave it as it is.
-/
namespace LedgerClient.Logging

/-- Whether a log is installed. -/
abbrev State := Bool

/-- The answer says whether this request installed it. -/
def install (_filter : String) (s : State) : Bool × State := (!s, true)

def defaultFilter : String := "info"

/-- The request of a host, answered with a status.  A filter that is no text installs nothing. -/
def installFor (filter : Boundary.Argument) (s : State) : Nat × State :=
  let status (r : Bool × State) : Nat × State :=
    (if r.1 then statusSuccess else statusFailure, r.2)
  match filter with
  | none => status (install defaultFilter s)
  | some bs => match Boundary.Argument.read "filter" (some bs) with
    | .ok f => status (install f s)
    | .error _ => (statusFailure, s)

end LedgerClient.Logging
