import LedgerClient.Proofs.Gateway.Evaluation
import LedgerClient.Proofs.Gateway.Proposal
/-!
# Sessions with a peer that goes along

A peer reads from a request what it asks for (`Session.Asks`), with the session's signature on it, and takes what it
asks for to its end (`Session.Commits`).  If the session can sign and is answered in time, then a write ends as a
committed transaction of three calls (`submit_commits`) and a query as its answer says (`evaluate_answered`).
-/
namespace LedgerClient.Gateway

open Message

/-- The request to have a proposal endorsed. -/
def Write.endorsement (w : Write) (tx : String) (p : SignedProposal) : EndorseRequest where
  transactionId := tx
  channelId := w.channel
  proposedTransaction := some p

-- from here on, what a proposal is made of is not looked at
attribute [local irreducible] Session.proposal buildProposal

namespace Session

variable (s : Session)

/-- A signature of the session on the message. -/
def Signed (message σ : List UInt8) : Prop := ∃ n, s.signer n (sha256 message) = .ok σ

/-- The session has a signature for the message, whenever it is asked for one. -/
def Signs (message : List UInt8) : Prop := ∀ n, ∃ σ, s.signer n (sha256 message) = .ok σ

/-- A signed proposal of the session asks for `w`, by what is read from its bytes. -/
structure Asks (w : Write) (tx : String) (p : SignedProposal) : Prop where
  reads : ∃ l, Layers.read? p.proposalBytes = some l ∧
    l.Say tx w.fresh s.creator w.channel w.chaincode w.function [w.payload]
  signed : s.Signed p.proposalBytes p.signature

/-- Hands in the endorsed envelope, signed by the session. -/
structure HandsIn (q₁ : EndorseRequest) (e : Envelope) (q₂ : SubmitRequest) : Prop where
  transactionId : q₂.transactionId = q₁.transactionId
  channelId : q₂.channelId = q₁.channelId
  preparedTransaction : ∃ σ, q₂.preparedTransaction = some { e with signature := σ } ∧ s.Signed e.payload σ

/-- Asks how the transaction ended, signed by the session. -/
structure Watches (q₁ : EndorseRequest) (q₃ : SignedCommitStatusRequest) : Prop where
  request : q₃.request = Wire.encode ({
    transactionId := q₁.transactionId
    channelId := q₁.channelId
    identity := s.creator } : CommitStatusRequest)
  signed : s.Signed q₃.request q₃.signature

/-- The peer endorses the proposal with this envelope. -/
def Endorses (q₁ : EndorseRequest) (e : Envelope) : Prop :=
  ∃ r, (s.peer.endorse q₁).answer = .ok r ∧ r.preparedTransaction = some e

/-- The peer says that the transaction was committed. -/
def SaysValid (q₃ : SignedCommitStatusRequest) : Prop :=
  ∃ r, (s.peer.commitStatus q₃).answer = .ok r ∧ r.result = valid

/-- The peer takes a transaction to its end, as long as the session does its part. -/
def Commits (q₁ : EndorseRequest) : Prop :=
  ∃ e, s.Endorses q₁ e ∧ (∀ q₂, s.HandsIn q₁ e q₂ → ∃ r, (s.peer.submit q₂).answer = .ok r) ∧
    ∀ q₃, s.Watches q₁ q₃ → s.SaysValid q₃

/-- The calls of a transaction that was committed. -/
inductive Transaction (q₁ : EndorseRequest) : List Call → Prop where
  | mk {e : Envelope} {q₂ : SubmitRequest} {q₃ : SignedCommitStatusRequest} (h₁ : s.Endorses q₁ e)
      (h₂ : s.HandsIn q₁ e q₂) (h₃ : s.Watches q₁ q₃) (hc : s.SaysValid q₃) :
      Transaction q₁ [s.sent (.endorse q₁), s.sent (.submit q₂), s.sent (.commitStatus q₃)]

/-- The proposal can be written down and signed: its length is a number of 64 bits, and no number of the signature
comes out as zero. -/
structure CanAsk (w : Write) : Prop where
  fits : (s.proposal w).bytes.length < UInt64.size
  signs : s.Signs (s.proposal w).bytes

/-- So can all else that a write takes. -/
structure CanWrite (w : Write) : Prop extends s.CanAsk w where
  signs_envelope : ∀ σ r e, ((s.endorsing w).reply σ).answer = .ok r → r.preparedTransaction = some e →
    s.Signs e.payload
  signs_status : s.Signs (Wire.encode (s.statusRequest w))

variable {s} {w : Write}

/-- **What a session asks for can be read from its proposal.** -/
theorem CanAsk.asks (h : s.CanAsk w) {σ : List UInt8} (hσ : s.Signed (s.proposal w).bytes σ) :
    s.Asks w (s.proposal w).transactionId { proposalBytes := (s.proposal w).bytes, signature := σ } := by
  refine ⟨?_, hσ⟩
  have hfits := h.fits
  rw [proposal_transactionId]
  unfold proposal at hfits ⊢
  obtain ⟨l, hl, hs⟩ := nested_buildProposal _ _ _ _ _ _ hfits
  exact ⟨l, hl.read?, hs⟩

/-- A call that is answered in time brings the answer, and was seen. -/
theorem Heard.outcome {α : Type} {q : Request} {r : Reply α} {a : α} (hh : s.Heard q) (hr : r.forget = s.peer.reply q)
    (ha : r.answer = .ok a) : s.outcome q r = .ok a ∧ s.seen q = [s.sent q] := by
  have hreach : (s.peer.reply q).reached = true := by
    rw [← hr, r.reached_forget, Reply.reached, ha]
  have hseen : s.seen q = [s.sent q] := if_pos ⟨hh.1, hreach⟩
  have hd : r.delayMs ≤ s.deadline q * 1000 := by
    have h := hh.2
    rwa [← hr] at h
  exact ⟨outcome_of_brings (by rw [hseen]; exact List.cons_ne_nil _ _) ⟨ha, hd⟩, hseen⟩

end Session

variable {s : Session} {w : Write} {α β : Type}

/-- **A stage that is signed and answered in time** comes to what is made of the answer. -/
theorem Stage.Ends.of_heard {g : Stage s α β} {t u : Trace} {x : Except Stop β} (h : g.Ends t x u)
    (hs : s.Signs g.message) (hh : ∀ q, s.Heard q) :
    ∃ σ, s.Signed g.message σ ∧ ∀ a, (g.reply σ).answer = .ok a →
      x = (g.look a).mapError .failed ∧ u.calls = t.calls ++ [s.sent (g.request σ)] := by
  cases h with
  | unsigned he =>
    obtain ⟨σ, hσ⟩ := hs t.signatures
    rw [hσ] at he
    cases he
  | @sent σ hσ =>
    refine ⟨σ, ⟨_, hσ⟩, fun a ha => ?_⟩
    obtain ⟨ho, hseen⟩ := (hh (g.request σ)).outcome (g.reply_forget σ) ha
    rw [ho]
    exact ⟨rfl, by rw [← hseen]⟩

namespace Session

/-! ## A write -/

theorem endorsing_commits (hh : ∀ q, s.Heard q) (hw : s.CanWrite w)
    (hc : ∀ tx p, s.Asks w tx p → s.Commits (w.endorsement tx p)) {t u : Trace} {x : Except Stop Envelope}
    (h : (s.endorsing w).Ends t x u) :
    ∃ p e, s.Asks w (s.proposal w).transactionId p ∧
      (let q := w.endorsement (s.proposal w).transactionId p
      s.Endorses q e ∧ s.Signs e.payload ∧ (∀ q₂, s.HandsIn q e q₂ → ∃ r, (s.peer.submit q₂).answer = .ok r) ∧
        (∀ q₃, s.Watches q q₃ → s.SaysValid q₃) ∧ x = .ok e ∧ u.calls = t.calls ++ [s.sent (.endorse q)]) := by
  obtain ⟨σ, hσ, hx⟩ := h.of_heard hw.signs hh
  have hasks := hw.asks hσ
  obtain ⟨e, ⟨r, hr, he⟩, hsubmit, hwatch⟩ := hc _ _ hasks
  obtain ⟨hx, hu⟩ := hx r hr
  refine ⟨_, e, hasks, ⟨r, hr, he⟩, hw.signs_envelope σ r e hr he, hsubmit, hwatch, ?_, hu⟩
  rw [hx]
  simp only [endorsing, prepared, he]
  rfl

section Endorsed

variable {q₁ : EndorseRequest} (htx : q₁.transactionId = (s.proposal w).transactionId) (hch : q₁.channelId = w.channel)
include htx hch

theorem submitting_commits {e : Envelope} (hh : ∀ q, s.Heard q) (hsig : s.Signs e.payload)
    (hc : ∀ q₂, s.HandsIn q₁ e q₂ → ∃ r, (s.peer.submit q₂).answer = .ok r) {t u : Trace} {x : Except Stop Unit}
    (h : (s.submitting w e).Ends t x u) :
    ∃ q₂, s.HandsIn q₁ e q₂ ∧ x = .ok () ∧ u.calls = t.calls ++ [s.sent (.submit q₂)] := by
  obtain ⟨σ, hσ, hx⟩ := h.of_heard hsig hh
  have hands : s.HandsIn q₁ e ⟨(s.proposal w).transactionId, w.channel, some { e with signature := σ }⟩ :=
    ⟨htx.symm, hch.symm, σ, rfl, hσ⟩
  obtain ⟨r, hr⟩ := hc _ hands
  obtain ⟨hx, hu⟩ := hx r hr
  exact ⟨_, hands, hx, hu⟩

theorem watching_commits (hh : ∀ q, s.Heard q) (hsig : s.Signs (Wire.encode (s.statusRequest w)))
    (hc : ∀ q₃, s.Watches q₁ q₃ → s.SaysValid q₃) {t u : Trace} {x : Except Stop Committed}
    (h : (s.watching w).Ends t x u) :
    ∃ q₃ c, s.Watches q₁ q₃ ∧ s.SaysValid q₃ ∧ x = .ok c ∧ u.calls = t.calls ++ [s.sent (.commitStatus q₃)] := by
  obtain ⟨σ, hσ, hx⟩ := h.of_heard hsig hh
  have hwatches : s.Watches q₁ ⟨Wire.encode (s.statusRequest w), σ⟩ := by
    refine ⟨?_, hσ⟩
    rw [htx, hch]
    rfl
  obtain ⟨r, hr, hvalid⟩ := hc _ hwatches
  obtain ⟨hx, hu⟩ := hx r hr
  refine ⟨_, ⟨(s.proposal w).transactionId, r.blockNumber⟩, hwatches, ⟨r, hr, hvalid⟩, ?_, hu⟩
  rw [hx]
  simp only [watching, committed, if_pos hvalid]
  rfl

end Endorsed

/-- **A write that the peer goes along with is committed**, and its three calls are one transaction. -/
theorem submit_commits (ho : s.isOpen = true) (hh : ∀ q, s.Heard q) (hw : s.CanWrite w)
    (hc : ∀ tx p, s.Asks w tx p → s.Commits (w.endorsement tx p)) {t u : Trace} {x : Except Stop Committed}
    (h : Run.after t (s.submitTransaction w.fresh w.channel w.chaincode w.function w.payload) = (x, u)) :
    ∃ c tx p calls, x = .ok c ∧ u.calls = t.calls ++ calls ∧ s.Asks w tx p ∧
      s.Transaction (w.endorsement tx p) calls := by
  cases course_of_submit h with
  | closed hclosed =>
    rw [ho] at hclosed
    cases hclosed
  | unendorsed h₁ =>
    obtain ⟨_, _, _, _, _, _, _, hx, _⟩ := endorsing_commits hh hw hc h₁
    cases hx
  | unsubmitted h₁ h₂ =>
    obtain ⟨p, e, _, _, hsig, hsubmit, _, he, _⟩ := endorsing_commits hh hw hc h₁
    cases he
    obtain ⟨_, _, hx, _⟩ := submitting_commits rfl rfl hh hsig hsubmit h₂
    cases hx
  | submitted h₁ h₂ h₃ =>
    obtain ⟨p, e, hasks, hendorse, hsig, hsubmit, hwatch, he, hu₁⟩ := endorsing_commits hh hw hc h₁
    cases he
    obtain ⟨q₂, hands, _, hu₂⟩ := submitting_commits rfl rfl hh hsig hsubmit h₂
    obtain ⟨q₃, c, hwatches, hvalid, hx, hu₃⟩ := watching_commits rfl rfl hh hw.signs_status hwatch h₃
    have htransaction : s.Transaction (w.endorsement (s.proposal w).transactionId p)
        [s.sent (.endorse _), s.sent (.submit q₂), s.sent (.commitStatus q₃)] := .mk hendorse hands hwatches hvalid
    refine ⟨c, _, p, _, hx, ?_, hasks, htransaction⟩
    rw [hu₃, hu₂, hu₁, List.append_assoc, List.append_assoc]
    rfl

/-! ## A query -/

/-- **A query that is answered ends as its answer says.** -/
theorem evaluate_answered (ho : s.isOpen = true) (hh : ∀ q, s.Heard q) (hw : s.CanAsk w) {t u : Trace}
    {x : Except Stop (List UInt8)}
    (h : Run.after t (s.evaluateTransaction w.fresh w.channel w.chaincode w.function w.payload) = (x, u)) :
    ∃ tx p, s.Asks w tx p ∧ ∀ r, (s.peer.evaluate (w.evaluation tx p)).answer = .ok r →
      x = (answered r).mapError .failed ∧ u.calls = t.calls ++ [s.sent (.evaluate (w.evaluation tx p))] := by
  obtain ⟨σ, hσ, hx⟩ := (ends_of_evaluate ho h).of_heard hw.signs hh
  refine ⟨_, _, hw.asks hσ, fun r hr => ?_⟩
  exact hx r hr

end Session
end LedgerClient.Gateway
