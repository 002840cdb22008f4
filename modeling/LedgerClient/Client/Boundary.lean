import LedgerClient.Client.Invocation
/-!
# Entry points for other hosts

Hosts pass raw bytes, which may be missing or no text.  Such arguments are refused before the call
begins, the payload first and then the others in order.  Of how a call ended a host learns a status
and, of a query, the answer; nothing that goes wrong gets past these entry points.
-/
namespace LedgerClient.Boundary

open Gateway (Fresh)

/-- A text argument: missing, or bytes up to the first NUL. -/
abbrev Argument := Option (List UInt8)

def Argument.read (name : String) : Argument → Except InputCause String
  | none => .error (.nullArgument name)
  | some bs => match text? (bs.takeWhile (· ≠ 0)) with
    | .ok s => .ok s
    | .error _ => .error (.argumentNotUtf8 name)

/-- Bytes, or a missing pointer with the length said to be behind it. -/
inductive PayloadArgument where
  | missing (length : Nat)
  | bytes (bs : List UInt8)

def PayloadArgument.read : PayloadArgument → Except InputCause (List UInt8)
  | .missing 0 => .ok []
  | .missing n => .error (.nullPayload n)
  | .bytes bs => .ok bs

structure Arguments where
  payload : PayloadArgument
  function : Argument
  network : Argument
  contract : Argument
  mspId : Argument
  certPath : Argument
  keyDir : Argument
  anchorPath : Argument
  endpoint : Argument
  peerName : Argument

def Arguments.read (a : Arguments) : Except InputCause Invocation := do
  let payload ← a.payload.read
  let function ← a.function.read "function"
  let network ← a.network.read "network"
  let contract ← a.contract.read "contract"
  let mspId ← a.mspId.read "msp_id"
  let certPath ← a.certPath.read "cert_path"
  let keyDir ← a.keyDir.read "key_dir"
  let anchorPath ← a.anchorPath.read "trust_anchor_path"
  let endpoint ← a.endpoint.read "peer_endpoint"
  let peerName ← a.peerName.read "peer_name"
  .ok { payload, function, network, contract, mspId, certPath, keyDir, anchorPath, endpoint,
        peerName }

/-- Refused input is reported, and so is work that was cut off. -/
def explain {α : Type} (op : Operation) : Except Stop α → Run Unit
  | .error (.failed (.invalidInput c)) => Run.report (.argumentsRejected c)
  | .error .panicked => Run.report (.panicCaught op)
  | _ => pure ()

/-- Runs to the end in any case. -/
def guarded {α : Type} (op : Operation) (r : Run α) (t : Trace) : Except Stop α × Trace :=
  Run.after t (Run.observe r (explain op))

def invoke {α : Type} (a : Arguments) (k : Invocation → Run α) : Run α := do
  let i ← Run.ofExcept (a.read.mapError .invalidInput)
  k i

/-! ## Results -/

/-- A status, and the answer if there is one. -/
structure ReadResult where
  status : Nat
  bytes? : Option (List UInt8)
deriving DecidableEq, Repr

/-- The buffer handed out: the answer and one more byte, a NUL. -/
def ReadResult.buffer (r : ReadResult) : Option (List UInt8) := r.bytes?.map (· ++ [0])

def ReadResult.length (r : ReadResult) : Nat := (r.bytes?.map List.length).getD 0

def ReadResult.ofEnd : Except Stop (List UInt8) → ReadResult
  | .ok bs => ⟨statusSuccess, some bs⟩
  | .error _ => ⟨statusFailure, none⟩

def write (w : Surroundings) (fresh : Fresh) (a : Arguments) (t : Trace) : Nat × Trace :=
  match guarded .write (invoke a fun i => i.write w {} fresh) t with
  | (.ok _, t) => (statusSuccess, t)
  | (.error _, t) => (statusFailure, t)

def read (w : Surroundings) (fresh : Fresh) (a : Arguments) (t : Trace) : ReadResult × Trace :=
  match guarded .read (invoke a fun i => i.read w {} fresh) t with
  | (e, t) => (.ofEnd e, t)

end LedgerClient.Boundary
