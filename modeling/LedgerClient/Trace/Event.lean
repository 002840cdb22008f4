import LedgerClient.Error.CallError
/-!
# Events worth a warning

What the library reports beside its results.  An event is a value; `level`, `message` and `fields`
say how it is written, the last with the words of other libraries in it.
-/
namespace LedgerClient

/-- The two ways to use a contract. -/
inductive Operation where
  | write
  | read
deriving DecidableEq, Repr

def Operation.name : Operation → String
  | .write => "write"
  | .read => "read"

inductive Level where
  | warn
  | error
deriving DecidableEq, Repr

def Level.name : Level → String
  | .warn => "warn"
  | .error => "error"

inductive Event where
  | manyKeys (dir : String) (candidates : Nat) (chosen : String)
  | commitUnknown (transaction : String)
  | callFailed (op : Operation) (function channel contract : String) (e : CallError)
  | argumentsRejected (c : InputCause)
  | panicCaught (op : Operation)
deriving DecidableEq, Repr

inductive FieldValue where
  | text (s : String)
  | number (n : Nat)
deriving DecidableEq, Repr

namespace Event

def level : Event → Level
  | manyKeys .. => .warn
  | commitUnknown _ => .warn
  | _ => .error

def message : Event → String
  | manyKeys .. => "Key directory holds more than one file, using the first by name"
  | commitUnknown _ => "Commit status unknown after submit; ledger state may have changed"
  | callFailed .. => "Bridge call failed"
  | argumentsRejected _ => "Rejected call arguments"
  | panicCaught op => s!"Panic caught in ledger_bridge_{op.name}"

def fields (words : Wording) : Event → List (String × FieldValue)
  | manyKeys d n c => [("key_dir", .text d), ("candidates", .number n), ("chosen", .text c)]
  | commitUnknown t => [("transaction_id", .text t)]
  | callFailed op f ch ct e =>
    [("operation", .text op.name), ("function", .text f), ("channel", .text ch),
      ("contract", .text ct), ("kind", .text e.kind), ("error", .text (e.message words))]
  | argumentsRejected c => [("error", .text c.message)]
  | panicCaught _ => []

end Event
end LedgerClient
