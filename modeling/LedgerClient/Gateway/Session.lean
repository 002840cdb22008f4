import LedgerClient.Config.Timeouts
import LedgerClient.Credential.Identity
import LedgerClient.Gateway.Deadline
import LedgerClient.Gateway.Proposal
import LedgerClient.Trace.Run
/-!
# Sessions

A session holds an identity, a signer and the way to one peer.  A write takes three calls: the
proposal is endorsed, the envelope that comes back is signed and submitted, and a signed request
for its status waits for the commit.  A query takes one.  Every call has the deadline of its phase,
and nothing is tried twice.
-/
namespace LedgerClient.Gateway

open Message

/-- What signs a digest.  The number says how many signatures were asked for before. -/
abbrev Signer := Nat → List UInt8 → Except CallError (List UInt8)

/-- How calls get to the peer: handed over as they are, or sent through a network. -/
inductive Link where
  | direct
  | network
deriving DecidableEq, Repr

structure Session where
  identity : Identity
  signer : Signer
  peer : Peer
  timeouts : Config.Timeouts
  link : Link := .direct
  isOpen : Bool := true

structure Committed where
  transactionId : String
  blockNumber : UInt64
deriving DecidableEq

/-! ## One call -/

/-- The error for a call that ended with a status code. -/
def statusError (p : Phase) (secs : Nat) (code : RpcCode) (text : String) : CallError :=
  match code with
  | .deadlineExceeded => .timeout p secs
  | .unavailable | .cancelled => .connection (.failed p text)
  | c => .remote p (.rpc c text)

/-- What an answer that took `delayMs` comes to; one that takes exactly the deadline is in time. -/
def settle {α : Type} (p : Phase) (secs : Nat) (r : Reply α) : Except CallError α :=
  if secs * 1000 < r.delayMs then .error (.timeout p secs)
  else match r.answer with
    | .ok a => .ok a
    | .refused c t => .error (statusError p secs c t)
    | .unreachable t => .error (.connection (.failed p t))

def Reply.reached {α : Type} (r : Reply α) : Bool :=
  match r.answer with
  | .unreachable _ => false
  | _ => true

/-- The text of a deadline that goes with a request.  One that is handed over as it is needs none; through a network,
no deadline can be too long to be written down. -/
def Link.timeout (l : Link) (secs : Nat) : Run (Option String) :=
  match l with
  | .direct => pure none
  | .network => do
    let d ← Run.orHalt (WireDeadline.ofSeconds? secs)
    pure (some d.render)

namespace Session

def creator (s : Session) : List UInt8 := s.identity.serialize

/-- Sends a request, and waits for the answer as long as its phase is given. -/
def call {α : Type} (s : Session) (q : Request) (r : Reply α) : Run α := do
  let p := q.phase
  let secs := s.timeouts.phase p
  let text ← s.link.timeout secs
  if r.reached then Run.recordCall ⟨q, secs, text⟩
  Run.ofExcept (settle p secs r)

def sign (s : Session) (message : List UInt8) : Run (List UInt8) := do
  let n ← Run.nextSignature
  Run.ofExcept (s.signer n (sha256 message))

def requireOpen (s : Session) : Run Unit :=
  if s.isOpen then pure () else Run.fail (.connection .sessionClosed)

/-! ## The two flows -/

def signedProposal (s : Session) (fresh : Fresh) (channel chaincode function : String)
    (payload : List UInt8) : Run (String × SignedProposal) := do
  let p := buildProposal fresh s.creator channel chaincode function [payload]
  let signature ← s.sign p.bytes
  pure (p.transactionId, { proposalBytes := p.bytes, signature })

def endorse (s : Session) (tx channel : String) (signed : SignedProposal) : Run Envelope := do
  let q : EndorseRequest :=
    { transactionId := tx, channelId := channel, proposedTransaction := some signed }
  let r ← s.call (.endorse q) (s.peer.endorse q)
  match r.preparedTransaction with
  | some e => pure e
  | none => Run.fail (.remote .endorse .noPreparedTransaction)

/-- Signs the envelope in place of whoever signed it before, and hands it in. -/
def submitEnvelope (s : Session) (tx channel : String) (e : Envelope) : Run Unit := do
  let signature ← s.sign e.payload
  let q : SubmitRequest :=
    { transactionId := tx, channelId := channel
      preparedTransaction := some { e with signature } }
  let _ ← s.call (.submit q) (s.peer.submit q)

/-- Reports a status that did not come in time: the transaction may have been committed. -/
def reportUnknown (tx : String) : Except Stop CommitStatusResponse → Run Unit
  | .error (.failed (.timeout ..)) => Run.report (.commitUnknown tx)
  | _ => pure ()

def commitStatus (s : Session) (tx channel : String) : Run CommitStatusResponse := do
  let request := Wire.encode
    ({ transactionId := tx, channelId := channel, identity := s.creator } : CommitStatusRequest)
  let signature ← s.sign request
  let q : SignedCommitStatusRequest := { request, signature }
  Run.observe (s.call (.commitStatus q) (s.peer.commitStatus q)) (reportUnknown tx)

/-- The code of a transaction that changed the ledger. -/
def valid : Int32 := 0

def submitTransaction (s : Session) (fresh : Fresh) (channel chaincode function : String)
    (payload : List UInt8) : Run Committed := do
  let (tx, signed) ← s.signedProposal fresh channel chaincode function payload
  s.requireOpen
  let e ← s.endorse tx channel signed
  s.submitEnvelope tx channel e
  let r ← s.commitStatus tx channel
  if r.result = valid then pure ⟨tx, r.blockNumber⟩
  else Run.fail (.remote .commitStatus (.invalidated tx r.result.toInt))

/-- Statuses from here on are errors of the peer. -/
def peerErrorThreshold : Int32 := 400

def evaluateTransaction (s : Session) (fresh : Fresh) (channel chaincode function : String)
    (payload : List UInt8) : Run (List UInt8) := do
  let (tx, signed) ← s.signedProposal fresh channel chaincode function payload
  s.requireOpen
  let q : EvaluateRequest :=
    { transactionId := tx, channelId := channel, proposedTransaction := some signed }
  let r ← s.call (.evaluate q) (s.peer.evaluate q)
  match r.result with
  | none => Run.fail (.remote .evaluate .noResult)
  | some a =>
    if peerErrorThreshold ≤ a.status then
      Run.fail (.remote .evaluate (.peerStatus a.status.toInt a.message))
    else pure a.payload

/-! ## Names -/

def checkNetwork (network : String) : Except CallError Unit :=
  if IsBlank network then .error (.invalidInput .blankNetwork) else .ok ()

def checkContract (contract : String) : Except CallError Unit :=
  if IsBlank contract then .error (.invalidInput .blankContract) else .ok ()

/-- The network is checked before the contract. -/
def bind (network contract : String) : Except CallError Unit :=
  match checkNetwork network with
  | .error e => .error e
  | .ok () => checkContract contract

/-- Has a function of a contract change the ledger. -/
def submit (s : Session) (fresh : Fresh) (network contract function : String)
    (payload : List UInt8) : Run Committed := do
  Run.ofExcept (bind network contract)
  s.submitTransaction fresh network contract function payload

/-- Asks a function of a contract. -/
def evaluate (s : Session) (fresh : Fresh) (network contract function : String)
    (payload : List UInt8) : Run (List UInt8) := do
  Run.ofExcept (bind network contract)
  s.evaluateTransaction fresh network contract function payload

/-! ## The session itself -/

def close (s : Session) : Session := { s with isOpen := false }

def describe (s : Session) : String :=
  "GatewaySession \x7b msp_id: " ++ Text.quoted s.identity.mspId ++ ", open: "
    ++ (if s.isOpen then "true" else "false") ++ ", timeouts: " ++ s.timeouts.describe ++ " \x7d"

end Session
end LedgerClient.Gateway
