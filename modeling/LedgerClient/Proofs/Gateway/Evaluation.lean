import LedgerClient.Proofs.Gateway.Submission
/-!
# The course of a query

A query takes one stage (`evaluating`): the proposal is signed, a request to evaluate it is sent, and the answer is
looked at.  An open session goes through it, and does nothing else (`evaluate_eq_stage`); a closed session signs, and
then says that it is closed (`evaluate_eq_closed`).
-/
namespace LedgerClient.Gateway

open Message

/-- What an answer to a query comes to. -/
def answered (r : EvaluateResponse) : Except CallError (List UInt8) :=
  match r.result with
  | none => .error (.remote .evaluate .noResult)
  | some a =>
    if Session.peerErrorThreshold ≤ a.status then .error (.remote .evaluate (.peerStatus a.status.toInt a.message))
    else .ok a.payload

/-- The request to have a proposal evaluated. -/
def Write.evaluation (w : Write) (tx : String) (p : SignedProposal) : EvaluateRequest where
  transactionId := tx
  channelId := w.channel
  proposedTransaction := some p

namespace Session

variable (s : Session) (w : Write)

/-- The stage of a query, which is asked for as a write is. -/
def evaluating : Stage s EvaluateResponse (List UInt8) where
  message := (s.proposal w).bytes
  request σ := .evaluate (w.evaluation (s.proposal w).transactionId ⟨(s.proposal w).bytes, σ⟩)
  reply σ := s.peer.evaluate (w.evaluation (s.proposal w).transactionId ⟨(s.proposal w).bytes, σ⟩)
  reply_forget _ := rfl
  look := answered
  note _ := []
  note_ok _ := rfl

@[simp] theorem evaluating_message : (s.evaluating w).message = (s.proposal w).bytes := by
  simp only [evaluating]

variable {s}

/-- **A query of an open session is its one stage.** -/
theorem evaluate_eq_stage (ho : s.isOpen = true) :
    s.evaluateTransaction w.fresh w.channel w.chaincode w.function w.payload = (s.evaluating w).run := by
  have hopen : s.requireOpen = pure () := if_pos ho
  unfold evaluateTransaction signedProposal
  simp only [bind_assoc, pure_bind, hopen, Stage.run, evaluating]
  refine bind_congr fun σ => ?_
  rw [call_look]
  refine bind_congr fun r => ?_
  unfold answered
  cases r.result with
  | none => rfl
  | some a =>
    dsimp only
    split <;> rfl

theorem evaluate_eq_closed (ho : s.isOpen = false) :
    s.evaluateTransaction w.fresh w.channel w.chaincode w.function w.payload =
      s.sign (s.proposal w).bytes >>= fun _ => Run.fail (.connection .sessionClosed) := by
  have hclosed : s.requireOpen = Run.fail (.connection .sessionClosed) := if_neg (Bool.eq_false_iff.1 ho)
  unfold evaluateTransaction signedProposal
  simp only [bind_assoc, pure_bind, hclosed]
  rfl

variable {w}

/-- Every query of an open session takes its one stage. -/
theorem ends_of_evaluate (ho : s.isOpen = true) {t u : Trace} {x : Except Stop (List UInt8)}
    (h : Run.after t (s.evaluateTransaction w.fresh w.channel w.chaincode w.function w.payload) = (x, u)) :
    (s.evaluating w).Ends t x u := by
  rw [evaluate_eq_stage w ho] at h
  exact .of_run h

/-- Uses a contract, whatever it brings. -/
def carryOut (s : Session) (w : Write) : Operation → Run Unit
  | .write => s.submitTransaction w.fresh w.channel w.chaincode w.function w.payload >>= fun _ => pure ()
  | .read => s.evaluateTransaction w.fresh w.channel w.chaincode w.function w.payload >>= fun _ => pure ()

end Session
end LedgerClient.Gateway
