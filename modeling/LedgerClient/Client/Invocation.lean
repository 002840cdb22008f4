import LedgerClient.Config.Profile
import LedgerClient.Gateway.Session
import LedgerClient.Credential.KeyStore
import LedgerClient.Network.Transport
/-!
# One call from beginning to end

A call brings all it needs: it sets up a transport and a session, uses the contract once and keeps
nothing.  The local checks have a fixed order, the same for both operations, and the peer hears of
a call only if all of them pass.  How the call ended is measured and, if it failed, reported.
-/
namespace LedgerClient

open Gateway (Committed Fresh Peer Session)

structure Invocation where
  payload : List UInt8
  function : String
  network : String
  contract : String
  mspId : String
  certPath : String
  keyDir : String
  anchorPath : String
  endpoint : String
  peerName : String
deriving DecidableEq, Repr

def Invocation.ofProfile (p : Config.Profile) (function : String) (payload : List UInt8) :
    Invocation where
  payload
  function
  network := p.channelName
  contract := p.contractName
  mspId := p.mspId
  certPath := p.certPath
  keyDir := p.keyPath
  anchorPath := p.tlsCertPath
  endpoint := p.peerEndpoint
  peerName := p.gatewayPeer

/-- All around a call: files, the home folder, and the peer found over a transport. -/
structure Surroundings where
  files : Storage.FileTree
  home : String
  reach : Network.Transport → Peer

/-- How a call is made, whatever it is about. -/
structure Policy where
  timeouts : Config.Timeouts := {}
  strictKeys : Bool := false

namespace Invocation

/-- Anchor, transport, certificate, identity, key, in this order. -/
def openSession (w : Surroundings) (p : Policy) (i : Invocation) : Run Session := do
  let anchor ← Run.ofExcept (Certificate.load w.files w.home i.anchorPath)
  let transport ← Run.ofExcept (Network.Transport.connect anchor i.endpoint i.peerName)
  let certificate ← Run.ofExcept (Certificate.load w.files w.home i.certPath)
  let identity ← Run.ofExcept (Identity.make i.mspId certificate)
  let key ← KeyStore.load w.files w.home i.keyDir p.strictKeys
  Run.ofExcept transport.channel
  pure
    { identity
      signer := fun _ d => SigningKey.sign key d
      peer := w.reach transport
      timeouts := p.timeouts
      link := .network }

/-- Metrics first, then the report of a failure.  What is cut off leaves neither. -/
def account {α : Type} (op : Operation) (i : Invocation) : Except Stop α → Run Unit
  | .ok _ => do
    Run.measure (.call op true)
    Run.measure (.duration op)
  | .error (.failed e) => do
    Run.measure (.call op false)
    Run.measure (.duration op)
    Run.measure (.failure e.kind)
    Run.report (.callFailed op i.function i.network i.contract e)
  | .error .panicked => pure ()

/-- Submits a transaction and waits for it to commit. -/
def write (w : Surroundings) (p : Policy) (fresh : Fresh) (i : Invocation) : Run Committed :=
  Run.observe
    (do
      let s ← openSession w p i
      s.submit fresh i.network i.contract i.function i.payload)
    (account .write i)

/-- Evaluates a query. -/
def read (w : Surroundings) (p : Policy) (fresh : Fresh) (i : Invocation) : Run (List UInt8) :=
  Run.observe
    (do
      let s ← openSession w p i
      s.evaluate fresh i.network i.contract i.function i.payload)
    (account .read i)

end Invocation
end LedgerClient
