import LedgerClient.Proofs.Gateway.Progress
import LedgerClient.Proofs.Gateway.Proposal
/-!
# What a write is bound to

All requests of a write are about one transaction of one channel, made by one creator, and every signature is on the
bytes it goes with (`submit_bound`).  What is written inside the bytes of a request is read back as it was written, as
long as there are no more bytes than lengths of 64 bits can count.
-/
namespace LedgerClient.Gateway

open Message

/-- The bytes of a proposal name the transaction, the channel, and the creator with the nonce. -/
def NamesProposal (bytes : List UInt8) (tx channel : String) (creator nonce : List UInt8) : Prop :=
  ∃ p h ch sh, Wire.decode bytes = some (p : Proposal) ∧ Wire.decode p.header = some (h : Header) ∧
    Wire.decode h.channelHeader = some (ch : ChannelHeader) ∧ ch.txId = tx ∧ ch.channelId = channel ∧
    Wire.decode h.signatureHeader = some (sh : SignatureHeader) ∧ sh.creator = creator ∧ sh.nonce = nonce

/-- A proposal names what it was built for. -/
theorem buildProposal_names (fresh : Fresh) (creator : List UInt8) (channel chaincode function : String)
    (args : List (List UInt8))
    (h : (buildProposal fresh creator channel chaincode function args).bytes.length < UInt64.size) :
    NamesProposal (buildProposal fresh creator channel chaincode function args).bytes
      (transactionId fresh.nonce creator) channel creator fresh.nonce := by
  obtain ⟨l, hl, hs⟩ := nested_buildProposal fresh creator channel chaincode function args h
  exact ⟨_, _, _, _, hl.proposal, hl.header, hl.channelHeader, by rw [hs.channelHeader], by rw [hs.channelHeader],
    hl.signatureHeader, by rw [hs.signatureHeader], by rw [hs.signatureHeader]⟩

namespace Session

/-- Calls about one transaction, each with a signature on the bytes it goes with. -/
structure Bound (s : Session) (w : Write) (n : Nat) (calls : List Call) : Prop where
  endorse : ∀ q d o, ⟨.endorse q, d, o⟩ ∈ calls →
    q.transactionId = transactionId w.fresh.nonce s.creator ∧ q.channelId = w.channel ∧
    ∃ p, q.proposedTransaction = some p ∧ s.signer n (sha256 p.proposalBytes) = .ok p.signature ∧
      (p.proposalBytes.length < UInt64.size →
        NamesProposal p.proposalBytes (transactionId w.fresh.nonce s.creator) w.channel s.creator w.fresh.nonce)
  /-- The envelope is the endorser's but for the signature. -/
  submit : ∀ q d o, ⟨.submit q, d, o⟩ ∈ calls →
    q.transactionId = transactionId w.fresh.nonce s.creator ∧ q.channelId = w.channel ∧
    ∃ q₁ r₁ e e', s.sent (.endorse q₁) ∈ calls ∧ (s.peer.endorse q₁).answer = .ok r₁ ∧
      r₁.preparedTransaction = some e ∧ q.preparedTransaction = some e' ∧ e'.payload = e.payload ∧
      s.signer (n + 1) (sha256 e'.payload) = .ok e'.signature
  commitStatus : ∀ q d o, ⟨.commitStatus q, d, o⟩ ∈ calls →
    s.signer (n + 2) (sha256 q.request) = .ok q.signature ∧
    (q.request.length < UInt64.size → Wire.decode q.request = some ({
      transactionId := transactionId w.fresh.nonce s.creator
      channelId := w.channel
      identity := s.creator } : CommitStatusRequest))

variable {s : Session} {w : Write} {n : Nat} {calls : List Call}

theorem Footprint.bound (h : s.Footprint w n calls) : s.Bound w n calls := by
  refine ⟨fun q d o hq => ?_, fun q d o hq => ?_, fun q d o hq => ?_⟩ <;> rw [h.sent _ hq] at hq
  · obtain ⟨htx, hch, p, hp, hb, hσ⟩ := endorse_signed (h.mem_endorse hq)
    rw [proposal_transactionId] at htx
    refine ⟨htx, hch, p, hp, hσ, fun hl => ?_⟩
    rw [hb] at hl ⊢
    exact buildProposal_names _ _ _ _ _ _ hl
  · obtain ⟨q₁, e, hm, h₁, h₂⟩ := h.mem_submit hq
    obtain ⟨r₁, hb, hp⟩ := endorse_passed h₁
    obtain ⟨σ, hσ, htx, hch, he⟩ := submit_signed h₂
    rw [proposal_transactionId] at htx
    exact ⟨htx, hch, q₁, r₁, e, _, hm, hb.1, hp, he, rfl, hσ⟩
  · obtain ⟨_, _, _, _, h₃⟩ := h.mem_commitStatus hq
    obtain ⟨hr, hσ⟩ := commitStatus_signed h₃
    refine ⟨hσ, fun hl => ?_⟩
    rw [hr] at hl ⊢
    rw [Wire.decode_encode (by decide) hl, statusRequest, proposal_transactionId]

/-- A session's creator is its organisation and its certificate. -/
theorem decode_creator (s : Session) (h : s.creator.length < UInt64.size) :
    Wire.decode s.creator = some ({
      mspid := s.identity.mspId
      idBytes := s.identity.certificate.pem } : SerializedIdentity) := Wire.decode_encode (by decide) h

/-- **A write is bound to one transaction**: its requests and its result name it, with the channel asked for and the
session's own creator, and what they carry signed is signed by the session. -/
theorem submit_bound (s : Session) (fresh : Fresh) (channel chaincode function : String) (payload : List UInt8)
    (t : Trace) :
    let run := Run.after t (s.submitTransaction fresh channel chaincode function payload)
    ∃ calls, run.2.calls = t.calls ++ calls ∧
      s.Bound ⟨fresh, channel, chaincode, function, payload⟩ t.signatures calls ∧
      (∀ c, run.1 = .ok c → c.transactionId = transactionId fresh.nonce s.creator) ∧
      (s.creator.length < UInt64.size → Wire.decode s.creator = some ({
        mspid := s.identity.mspId
        idBytes := s.identity.certificate.pem } : SerializedIdentity)) := by
  intro run
  rcases hrun : run with ⟨x, u⟩
  have h : s.Course ⟨fresh, channel, chaincode, function, payload⟩ t x u := course_of_submit hrun
  obtain ⟨calls, hc, hf⟩ := h.footprint
  refine ⟨calls, hc, hf.bound, fun c hx => ?_, s.decode_creator⟩
  rw [show x = .ok c from hx] at h
  obtain ⟨_, _, _, _, _, _, _, r, _, _, _, _, _, rfl⟩ := h.confirms
  exact s.proposal_transactionId _

end Session
end LedgerClient.Gateway
