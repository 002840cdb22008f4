import LedgerClient.Error.Phase
import LedgerClient.Error.RpcCode
import LedgerClient.Message.Gateway
/-!
# The gateway peer

A peer is what it answers to each of the four requests, and after how long.  Nothing is assumed of
it: any answer may come to any request.
-/
namespace LedgerClient.Gateway

open Message

inductive Answer (α : Type) where
  | ok (a : α)
  | refused (code : RpcCode) (text : String)
  /-- The request never got to the peer, and this is why. -/
  | unreachable (text : String)

structure Reply (α : Type) where
  answer : Answer α
  delayMs : Nat := 0

structure Peer where
  endorse : EndorseRequest → Reply EndorseResponse
  submit : SubmitRequest → Reply SubmitResponse
  commitStatus : SignedCommitStatusRequest → Reply CommitStatusResponse
  evaluate : EvaluateRequest → Reply EvaluateResponse

/-- Nothing listens where this peer should be, and the text says so. -/
def Peer.absent (text : String) : Peer where
  endorse _ := ⟨.unreachable text, 0⟩
  submit _ := ⟨.unreachable text, 0⟩
  commitStatus _ := ⟨.unreachable text, 0⟩
  evaluate _ := ⟨.unreachable text, 0⟩

inductive Request where
  | endorse (r : EndorseRequest)
  | submit (r : SubmitRequest)
  | commitStatus (r : SignedCommitStatusRequest)
  | evaluate (r : EvaluateRequest)
deriving DecidableEq

def Request.phase : Request → Phase
  | .endorse _ => .endorse
  | .submit _ => .submit
  | .commitStatus _ => .commitStatus
  | .evaluate _ => .evaluate

/-- A request that was sent, the seconds it was given, and the text of them that went with it. -/
structure Call where
  request : Request
  deadline : Nat
  timeout : Option String
deriving DecidableEq

end LedgerClient.Gateway
