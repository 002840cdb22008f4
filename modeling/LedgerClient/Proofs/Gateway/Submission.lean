import LedgerClient.Proofs.Gateway.Stages
/-!
# The course of a write

A write of an open session is its three stages, one after the other (`submit_eq_stages`); a closed session signs, and
then says that it is closed (`submit_eq_closed`).  The first stage that brings nothing is the last (`Session.Course`).
Every write takes such a course (`course_of_submit`); what a write can do is read off from there.
-/
namespace LedgerClient.Gateway

open Message

/-- What a write is asked for. -/
structure Write where
  fresh : Fresh
  channel : String
  chaincode : String
  function : String
  payload : List UInt8

/-! ## The three stages -/

/-- The envelope of an endorsement. -/
def prepared (r : EndorseResponse) : Except CallError Envelope :=
  match r.preparedTransaction with
  | some e => .ok e
  | none => .error (.remote .endorse .noPreparedTransaction)

/-- The end of a transaction that was ordered. -/
def committed (tx : String) (r : CommitStatusResponse) : Except CallError Committed :=
  if r.result = Session.valid then .ok ⟨tx, r.blockNumber⟩
  else .error (.remote .commitStatus (.invalidated tx r.result.toInt))

/-- The warning about a status that did not come in time. -/
def warning (tx : String) : Except Stop CommitStatusResponse → List Event
  | .error (.failed (.timeout ..)) => [.commitUnknown tx]
  | _ => []

namespace Session

variable (s : Session) (w : Write)

/-- What the session builds for a write. -/
def proposal : PreparedProposal := buildProposal w.fresh s.creator w.channel w.chaincode w.function [w.payload]

def endorsing : Stage s EndorseResponse Envelope where
  message := (s.proposal w).bytes
  request σ := .endorse
    { transactionId := (s.proposal w).transactionId
      channelId := w.channel
      proposedTransaction := some { proposalBytes := (s.proposal w).bytes, signature := σ } }
  reply σ := s.peer.endorse
    { transactionId := (s.proposal w).transactionId
      channelId := w.channel
      proposedTransaction := some { proposalBytes := (s.proposal w).bytes, signature := σ } }
  reply_forget _ := rfl
  look := prepared
  note _ := []
  note_ok _ := rfl

def submitting (e : Envelope) : Stage s SubmitResponse Unit where
  message := e.payload
  request σ := .submit
    { transactionId := (s.proposal w).transactionId
      channelId := w.channel
      preparedTransaction := some { e with signature := σ } }
  reply σ := s.peer.submit
    { transactionId := (s.proposal w).transactionId
      channelId := w.channel
      preparedTransaction := some { e with signature := σ } }
  reply_forget _ := rfl
  look _ := .ok ()
  note _ := []
  note_ok _ := rfl

theorem proposal_transactionId : (s.proposal w).transactionId = transactionId w.fresh.nonce s.creator := by
  simp only [proposal, buildProposal]

/-- What asks for the status of a write. -/
def statusRequest : CommitStatusRequest where
  transactionId := (s.proposal w).transactionId
  channelId := w.channel
  identity := s.creator

def watching : Stage s CommitStatusResponse Committed where
  message := Wire.encode (s.statusRequest w)
  request σ := .commitStatus { request := Wire.encode (s.statusRequest w), signature := σ }
  reply σ := s.peer.commitStatus { request := Wire.encode (s.statusRequest w), signature := σ }
  reply_forget _ := rfl
  look := committed (s.proposal w).transactionId
  note := warning (s.proposal w).transactionId
  note_ok _ := rfl

@[simp] theorem endorsing_message : (s.endorsing w).message = (s.proposal w).bytes := by
  simp only [endorsing]

@[simp] theorem watching_message : (s.watching w).message = Wire.encode (s.statusRequest w) := by
  simp only [watching]

/-- **How a write can go**, after one trace and up to another: up to the first stage that brings nothing. -/
inductive Course (t : Trace) : Except Stop Committed → Trace → Prop where
  /-- A session that is closed is found to be so only after the first signature. -/
  | closed {σ : List UInt8} (ho : s.isOpen = false)
      (h : s.signer t.signatures (sha256 (s.proposal w).bytes) = .ok σ) :
      Course t (.error (.failed (.connection .sessionClosed))) { t with signatures := t.signatures + 1 }
  | unendorsed {x : Stop} {u : Trace} (h₁ : (s.endorsing w).Ends t (.error x) u) : Course t (.error x) u
  | unsubmitted {e : Envelope} {x : Stop} {t₁ u : Trace} (h₁ : (s.endorsing w).Ends t (.ok e) t₁)
      (h₂ : (s.submitting w e).Ends t₁ (.error x) u) : Course t (.error x) u
  | submitted {e : Envelope} {x : Except Stop Committed} {t₁ t₂ u : Trace}
      (h₁ : (s.endorsing w).Ends t (.ok e) t₁) (h₂ : (s.submitting w e).Ends t₁ (.ok ()) t₂)
      (h₃ : (s.watching w).Ends t₂ x u) : Course t x u

variable {s w}

/-! ## Running it -/

theorem after_reportUnknown (t : Trace) (tx : String) (x : Except Stop CommitStatusResponse) :
    Run.after t (reportUnknown tx x) = (.ok (), { t with events := t.events ++ warning tx x }) := by
  unfold reportUnknown warning
  split
  · rfl
  · simp only [Run.after_pure, List.append_nil]

variable (w)

theorem endorse_eq :
    (s.sign (s.proposal w).bytes >>= fun σ =>
      s.endorse (s.proposal w).transactionId w.channel ⟨(s.proposal w).bytes, σ⟩) = (s.endorsing w).run := by
  unfold endorse Stage.run
  rw [endorsing_message]
  refine bind_congr fun σ => ?_
  simp only [endorsing]
  rw [call_look]
  refine bind_congr fun r => ?_
  unfold prepared
  cases r.preparedTransaction <;> rfl

theorem submitEnvelope_eq (e : Envelope) :
    s.submitEnvelope (s.proposal w).transactionId w.channel e = (s.submitting w e).run := by
  unfold submitEnvelope Stage.run
  refine bind_congr fun σ => ?_
  simp only [submitting]
  rw [call_look]
  rfl

theorem commitStatus_eq :
    (s.commitStatus (s.proposal w).transactionId w.channel >>= fun r =>
      if r.result = valid then pure ⟨(s.proposal w).transactionId, r.blockNumber⟩
      else Run.fail (.remote .commitStatus (.invalidated (s.proposal w).transactionId r.result.toInt))) =
      (s.watching w).run := by
  unfold commitStatus Stage.run
  rw [bind_assoc, watching_message, ← statusRequest]
  refine bind_congr fun σ => ?_
  have hnote : reportUnknown (s.proposal w).transactionId =
      fun x => Run.reports (warning (s.proposal w).transactionId x) :=
    funext fun x => Run.ext fun t => by rw [after_reportUnknown, Run.after_reports]
  rw [hnote]
  simp only [watching]
  refine bind_congr fun r => ?_
  unfold committed
  split <;> rfl

/-- **A write of an open session is its three stages.** -/
theorem submit_eq_stages (ho : s.isOpen = true) :
    s.submitTransaction w.fresh w.channel w.chaincode w.function w.payload =
      (s.endorsing w).run >>= fun e => (s.submitting w e).run >>= fun _ => (s.watching w).run := by
  have hopen : s.requireOpen = pure () := if_pos ho
  simp only [← endorse_eq, ← submitEnvelope_eq, ← commitStatus_eq]
  unfold submitTransaction signedProposal
  simp only [bind_assoc, pure_bind, hopen]
  rfl

theorem submit_eq_closed (ho : s.isOpen = false) :
    s.submitTransaction w.fresh w.channel w.chaincode w.function w.payload =
      s.sign (s.proposal w).bytes >>= fun _ => Run.fail (.connection .sessionClosed) := by
  have hclosed : s.requireOpen = Run.fail (.connection .sessionClosed) := if_neg (Bool.eq_false_iff.1 ho)
  unfold submitTransaction signedProposal
  simp only [bind_assoc, pure_bind, hclosed]
  rfl

variable {w}

/-- **Every write takes one of the courses.** -/
theorem course_of_submit {t u : Trace} {x : Except Stop Committed}
    (h : Run.after t (s.submitTransaction w.fresh w.channel w.chaincode w.function w.payload) = (x, u)) :
    s.Course w t x u := by
  cases ho : s.isOpen with
  | false =>
    rw [submit_eq_closed w ho] at h
    cases hσ : s.signer t.signatures (sha256 (s.proposal w).bytes) with
    | error e =>
      rw [Run.after_bind_error (after_sign_error hσ)] at h
      cases h
      exact .unendorsed (.unsigned (by rw [endorsing_message, hσ]))
    | ok σ =>
      rw [Run.after_bind_ok (after_sign_ok hσ), Run.after_fail] at h
      cases h
      exact .closed ho hσ
  | true =>
    rw [submit_eq_stages w ho] at h
    obtain ⟨y, h₁, rfl⟩ | ⟨e, t₁, h₁, h⟩ := Run.of_after_bind h
    · exact .unendorsed (.of_run h₁)
    · obtain ⟨y, h₂, rfl⟩ | ⟨_, t₂, h₂, h₃⟩ := Run.of_after_bind h
      · exact .unsubmitted (.of_run h₁) (.of_run h₂)
      · exact .submitted (.of_run h₁) (.of_run h₂) (.of_run h₃)

end Session
end LedgerClient.Gateway
