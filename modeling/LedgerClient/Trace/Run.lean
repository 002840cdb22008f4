import LedgerClient.Gateway.Peer
import LedgerClient.Trace.Metric
/-!
# Runs

What a piece of work leaves behind beside its result: the calls the peer saw, how many signatures
were asked for, and the events and metrics, each in order.  Work ends with a result, an error, or
not at all when it cannot be carried out.
-/
namespace LedgerClient

inductive Stop where
  | failed (e : CallError)
  | panicked
deriving DecidableEq, Repr

structure Trace where
  signatures : Nat := 0
  calls : List Gateway.Call := []
  events : List Event := []
  metrics : List Metric := []
deriving DecidableEq, Inhabited

abbrev Run := ExceptT Stop (StateM Trace)

namespace Run

variable {α : Type}

def fail (e : CallError) : Run α := throw (.failed e)

def halt : Run α := throw .panicked

def ofExcept : Except CallError α → Run α
  | .ok a => pure a
  | .error e => fail e

/-- What there is; without it the work cannot be carried out. -/
def orHalt : Option α → Run α
  | some a => pure a
  | none => halt

def report (e : Event) : Run Unit := modify fun t => { t with events := t.events ++ [e] }

def measure (m : Metric) : Run Unit := modify fun t => { t with metrics := t.metrics ++ [m] }

def recordCall (c : Gateway.Call) : Run Unit := modify fun t => { t with calls := t.calls ++ [c] }

/-- The number of the next signature, from zero on. -/
def nextSignature : Run Nat :=
  modifyGet fun t => (t.signatures, { t with signatures := t.signatures + 1 })

/-- Carries out the work after the trace `t`. -/
def after (t : Trace) (r : Run α) : Except Stop α × Trace := r.run.run t

/-- Looks at how the work ended and does something more, which does not change the end. -/
def observe (r : Run α) (k : Except Stop α → Run Unit) : Run α :=
  ExceptT.mk (m := StateM Trace) do
    let e ← r.run
    let _ ← (k e).run
    pure e

end Run
end LedgerClient
