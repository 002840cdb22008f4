import LedgerClient.Proofs.Client.HexTable
import LedgerClient.Proofs.Client.LocalChecks
import LedgerClient.Proofs.Gateway.Cooperation
/-!
# Ledgers

A ledger is what surrounds each call of a client and how the calls of an operation change it.  One that serves the
client's contract keeps a table of text, which committed transactions change (`Ledger.Serves`).  Operations are carried
out on it one after the other (`Ledger.run`), and `Return` says what they are to return of a map of bytes.
-/
namespace LedgerClient.KeyValue

open Gateway (Call Fresh Session Write)
open Message (EvaluateResponse)

/-! ## The contract -/

/-- What a transaction does to the table. -/
inductive Changes (S : Table) : String → Bytes → Table → Prop where
  | put {arg : Bytes} {ps : List (String × String)} (h : Json.IsObject arg ps) : Changes S "put" arg (overlay S ps)
  | delete {key : String} : Changes S "delete" (utf8 key) (erase S key)

/-- An answer about one key: its value, or a status that says there is none. -/
def Finds (S : Table) (key : String) (r : EvaluateResponse) : Prop :=
  ∃ a, r.result = some a ∧ match S key with
    | some value => a.status < Session.peerErrorThreshold ∧ a.payload = utf8 value
    | none => Session.peerErrorThreshold ≤ a.status

/-- An answer with the whole table, in any order. -/
def ShowsAll (S : Table) (r : EvaluateResponse) : Prop :=
  ∃ a ps, r.result = some a ∧ a.status < Session.peerErrorThreshold ∧ Json.IsObject a.payload ps ∧
    (ps.map Prod.fst).Nodup ∧ ∀ key value, (key, value) ∈ ps ↔ S key = some value

/-- What the client asks its contract for. -/
def Client.asking (c : Client) (fresh : Fresh) (function : String) (payload : Bytes) : Write :=
  ⟨fresh, c.profile.channelName, c.profile.contractName, function, payload⟩

/-- The peer of a session answers in time, and runs the client's contract on the table. -/
structure Runs (c : Client) (s : Session) (S : Table) : Prop where
  heard : ∀ q, s.Heard q
  get : ∀ fresh key tx p, s.Asks (c.asking fresh "get" (utf8 key)) tx p →
    ∃ r, (s.peer.evaluate ((c.asking fresh "get" (utf8 key)).evaluation tx p)).answer = .ok r ∧ Finds S key r
  getAll : ∀ fresh arg tx p, Json.IsObject arg [] → s.Asks (c.asking fresh "getAll" arg) tx p →
    ∃ r, (s.peer.evaluate ((c.asking fresh "getAll" arg).evaluation tx p)).answer = .ok r ∧ ShowsAll S r
  commits : ∀ fresh function arg S' tx p, Changes S function arg S' → s.Asks (c.asking fresh function arg) tx p →
    s.Commits ((c.asking fresh function arg).endorsement tx p)

/-- What surrounds the calls of a client, and what the calls of one operation do to it. -/
structure Ledger where
  State : Type
  around : State → Surroundings
  next : State → List Call → State
  table : State → Table

/-- A session that the client opens. -/
def Client.Opens (c : Client) (w : Surroundings) (s : Session) : Prop :=
  ∃ t u, Run.after t ((Invocation.ofProfile c.profile "" []).openSession w c.policy) = (.ok s, u)

/-- The client passes its local checks, its peer runs the contract, and a committed transaction changes the table. -/
structure Ledger.Serves (L : Ledger) (c : Client) : Prop where
  checked : ∀ σ function payload,
    LocalCheck.firstError? (L.around σ) c.policy (.ofProfile c.profile function payload) = none
  runs : ∀ σ s, c.Opens (L.around σ) s → Runs c s (L.table σ)
  committed : ∀ σ s fresh function arg S' tx p calls, c.Opens (L.around σ) s →
    Changes (L.table σ) function arg S' → s.Asks (c.asking fresh function arg) tx p →
    s.Transaction ((c.asking fresh function arg).endorsement tx p) calls → L.table (L.next σ calls) = S'
  untouched : ∀ σ calls, (∀ c ∈ calls, c.request.phase ≠ .submit) → L.table (L.next σ calls) = L.table σ

/-! ## Operations -/

inductive Op where
  | put (pairs : List (Bytes × Bytes))
  | remove (key : Bytes)
  | get (key : Bytes)
  | getAll

inductive Outcome where
  | done
  | value (v : Bytes)
  | all (m : ByteMap)

namespace Op

/-- Carries out the operation; of the pairs of a batch, later ones count. -/
def run (c : Client) (w : Surroundings) (fresh : Fresh) : Op → Run Outcome
  | put pairs => do
    c.put w fresh (ByteMap.ofPairs pairs)
    pure .done
  | remove key => do
    c.remove w fresh key
    pure .done
  | get key => do
    let v ← c.get w fresh key
    pure (.value v)
  | getAll => do
    let m ← c.getAll w fresh
    pure (.all m)

/-- What the operation does to a map. -/
def apply (M : Memory) : Op → Memory
  | put pairs => overlay M pairs
  | remove key => erase M key
  | get _ => M
  | getAll => M

/-- What the operation is to return of a map. -/
def Returns (M : Memory) : Op → Except Stop Outcome → Prop
  | put _, x => x = .ok .done
  | remove _, x => x = .ok .done
  | get key, x => match M key with
    | some v => x = .ok (.value v)
    | none => ∃ cause, x = .error (.failed (.remote .evaluate cause))
  | getAll, x => ∃ m, x = .ok (.all m) ∧ Holds lt m M

/-- The session can write down and sign what the operation takes. -/
def Feasible (c : Client) (s : Session) (fresh : Fresh) : Op → Prop
  | put pairs => ByteMap.ofPairs pairs ≠ [] → s.CanWrite (c.asking fresh "put" (encodeBatch (ByteMap.ofPairs pairs)))
  | remove key => s.CanWrite (c.asking fresh "delete" (utf8 (hex key)))
  | get key => s.CanAsk (c.asking fresh "get" (utf8 (hex key)))
  | getAll => s.CanAsk (c.asking fresh "getAll" (encodeBatch []))

end Op

namespace Ledger

variable (L : Ledger) (c : Client)

/-- One operation, and what the ledger has become after it. -/
def step (σ : L.State) (fresh : Fresh) (op : Op) : Except Stop Outcome × L.State :=
  match Run.after {} (op.run c (L.around σ) fresh) with
  | (x, t) => (x, L.next σ t.calls)

/-- Operations one after the other. -/
def run : L.State → List (Fresh × Op) → List (Except Stop Outcome)
  | _, [] => []
  | σ, (fresh, op) :: r => (L.step c σ fresh op).1 :: run (L.step c σ fresh op).2 r

/-- Each operation is feasible when its turn comes. -/
def Feasible : L.State → List (Fresh × Op) → Prop
  | _, [] => True
  | σ, (fresh, op) :: r =>
    (∀ s, c.Opens (L.around σ) s → op.Feasible c s fresh) ∧ Feasible (L.step c σ fresh op).2 r

end Ledger

/-- What operations return, one after the other, as they change a map. -/
inductive Return : Memory → List Op → List (Except Stop Outcome) → Prop where
  | nil {M : Memory} : Return M [] []
  | cons {M : Memory} {op : Op} {ops : List Op} {x : Except Stop Outcome} {xs : List (Except Stop Outcome)}
      (h : op.Returns M x) (hr : Return (op.apply M) ops xs) : Return M (op :: ops) (x :: xs)

end LedgerClient.KeyValue
