/-!
# The calls a gateway answers

A write is endorsed, submitted and then watched until it commits; a query is evaluated.  Each of
these phases has a deadline of its own, and errors name the phase they belong to.
-/
namespace LedgerClient

inductive Phase where
  | evaluate
  | endorse
  | submit
  | commitStatus
deriving DecidableEq, Repr

def Phase.name : Phase → String
  | .evaluate => "evaluate"
  | .endorse => "endorse"
  | .submit => "submit"
  | .commitStatus => "commit_status"

end LedgerClient
