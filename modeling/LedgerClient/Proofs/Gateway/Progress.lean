import LedgerClient.Proofs.Gateway.Submission
/-!
# How far a write gets

The calls the peer sees of a write are its footprint (`Session.Footprint`): some of the three requests, in order, and
none before the one it rests on was answered.  The main statement is `submit_in_order`, which also says when a write
succeeds.
-/
namespace LedgerClient.Gateway.Session

open Message

variable (s : Session) (w : Write)

/-- **The calls of a write**, whose first signature comes `n`th. -/
inductive Footprint (n : Nat) : List Call → Prop where
  | none : Footprint n []
  | endorse {q₁ : EndorseRequest} (h₁ : (s.endorsing w).Signed n (.endorse q₁)) :
      Footprint n [s.sent (.endorse q₁)]
  | submit {q₁ : EndorseRequest} {e : Envelope} {q₂ : SubmitRequest} (h₁ : (s.endorsing w).Passed n (.endorse q₁) e)
      (h₂ : (s.submitting w e).Signed (n + 1) (.submit q₂)) :
      Footprint n [s.sent (.endorse q₁), s.sent (.submit q₂)]
  | commitStatus {q₁ : EndorseRequest} {e : Envelope} {q₂ : SubmitRequest} {q₃ : SignedCommitStatusRequest}
      (h₁ : (s.endorsing w).Passed n (.endorse q₁) e) (h₂ : (s.submitting w e).Passed (n + 1) (.submit q₂) ())
      (h₃ : (s.watching w).Signed (n + 2) (.commitStatus q₃)) :
      Footprint n [s.sent (.endorse q₁), s.sent (.submit q₂),
        s.sent (.commitStatus q₃)]

variable {s w} {t u : Trace} {x : Except Stop Committed}

/-! ## What each request rests on -/

section Stages

variable {n : Nat} {q : Request} {e : Envelope}

theorem endorsing_signed (h : (s.endorsing w).Signed n q) : ∃ q', q = .endorse q' := by
  obtain ⟨σ, _, rfl⟩ := h
  exact ⟨_, rfl⟩

theorem submitting_signed (h : (s.submitting w e).Signed n q) : ∃ q', q = .submit q' := by
  obtain ⟨σ, _, rfl⟩ := h
  exact ⟨_, rfl⟩

theorem watching_signed (h : (s.watching w).Signed n q) : ∃ q', q = .commitStatus q' := by
  obtain ⟨σ, _, rfl⟩ := h
  exact ⟨_, rfl⟩

/-- What a proposal carries. -/
theorem endorse_signed {q : EndorseRequest} (h : (s.endorsing w).Signed n (.endorse q)) :
    q.transactionId = (s.proposal w).transactionId ∧ q.channelId = w.channel ∧
      ∃ p, q.proposedTransaction = some p ∧ p.proposalBytes = (s.proposal w).bytes ∧
        s.signer n (sha256 p.proposalBytes) = .ok p.signature := by
  obtain ⟨σ, hσ, hq⟩ := h
  rw [endorsing_message] at hσ
  simp only [endorsing, Request.endorse.injEq] at hq
  subst hq
  exact ⟨rfl, rfl, _, rfl, by simp only [hσ, and_self]⟩

theorem endorse_passed {q : EndorseRequest} (h : (s.endorsing w).Passed n (.endorse q) e) :
    ∃ r, (s.peer.endorse q).Brings s.timeouts.endorse r ∧ r.preparedTransaction = some e := by
  obtain ⟨σ, r, _, hq, _, hb, hl⟩ := h
  simp only [endorsing, Request.endorse.injEq] at hq hb
  rw [← hq] at hb
  refine ⟨r, hb, ?_⟩
  simp only [endorsing, prepared] at hl
  cases hp : r.preparedTransaction with
  | none => rw [hp] at hl; cases hl
  | some e' => rw [hp] at hl; cases hl; rfl

/-- What an envelope is handed in with. -/
theorem submit_signed {q : SubmitRequest} (h : (s.submitting w e).Signed n (.submit q)) :
    ∃ σ, s.signer n (sha256 e.payload) = .ok σ ∧ q.transactionId = (s.proposal w).transactionId ∧
      q.channelId = w.channel ∧ q.preparedTransaction = some { e with signature := σ } := by
  obtain ⟨σ, hσ, hq⟩ := h
  simp only [submitting, Request.submit.injEq] at hq
  subst hq
  exact ⟨σ, hσ, rfl, rfl, rfl⟩

theorem submit_passed {q : SubmitRequest} (h : (s.submitting w e).Passed n (.submit q) ()) :
    ∃ r, (s.peer.submit q).Brings s.timeouts.submit r := by
  obtain ⟨σ, r, _, hq, _, hb, _⟩ := h
  simp only [submitting, Request.submit.injEq] at hq hb
  rw [← hq] at hb
  exact ⟨r, hb⟩

/-- What a request for a status carries. -/
theorem commitStatus_signed {q : SignedCommitStatusRequest} (h : (s.watching w).Signed n (.commitStatus q)) :
    q.request = Wire.encode (s.statusRequest w) ∧ s.signer n (sha256 q.request) = .ok q.signature := by
  obtain ⟨σ, hσ, hq⟩ := h
  rw [watching_message] at hσ
  simp only [watching, Request.commitStatus.injEq] at hq
  subst hq
  simp only [hσ, and_self]

theorem commitStatus_passed {q : SignedCommitStatusRequest} {c : Committed}
    (h : (s.watching w).Passed n (.commitStatus q) c) :
    ∃ r, (s.peer.commitStatus q).Brings s.timeouts.commitStatus r ∧ r.result = valid ∧
      c = ⟨(s.proposal w).transactionId, r.blockNumber⟩ := by
  obtain ⟨σ, r, _, hq, _, hb, hl⟩ := h
  simp only [watching, Request.commitStatus.injEq] at hq hb
  rw [← hq] at hb
  refine ⟨r, hb, ?_⟩
  simp only [watching, committed] at hl
  split at hl
  · rename_i hv
    cases hl
    exact ⟨hv, rfl⟩
  · cases hl

theorem watching_reply {σ : List UInt8} {q : SignedCommitStatusRequest}
    (h : .commitStatus q = (s.watching w).request σ) : (s.watching w).reply σ = s.peer.commitStatus q := by
  simp only [watching, Request.commitStatus.injEq] at h ⊢
  rw [h]

end Stages

/-- What a write adds to the calls is a footprint. -/
theorem Course.footprint (h : s.Course w t x u) :
    ∃ calls, u.calls = t.calls ++ calls ∧ s.Footprint w t.signatures calls := by
  cases h with
  | closed => exact ⟨[], (List.append_nil _).symm, .none⟩
  | unendorsed h₁ =>
    rcases h₁.calls with h | ⟨_, hq₁, h⟩
    · exact ⟨[], by rw [h, List.append_nil], .none⟩
    · obtain ⟨q₁, rfl⟩ := endorsing_signed hq₁
      exact ⟨_, h, .endorse hq₁⟩
  | unsubmitted h₁ h₂ =>
    obtain ⟨_, hq₁, rfl⟩ := h₁.of_ok
    obtain ⟨q₁, rfl⟩ := endorsing_signed hq₁.signed
    rcases h₂.calls with h | ⟨_, hq₂, h⟩
    · exact ⟨_, h, .endorse hq₁.signed⟩
    · obtain ⟨q₂, rfl⟩ := submitting_signed hq₂
      exact ⟨_, by rw [h, List.append_assoc]; rfl, .submit hq₁ hq₂⟩
  | submitted h₁ h₂ h₃ =>
    obtain ⟨_, hq₁, rfl⟩ := h₁.of_ok
    obtain ⟨q₁, rfl⟩ := endorsing_signed hq₁.signed
    obtain ⟨_, hq₂, rfl⟩ := h₂.of_ok
    obtain ⟨q₂, rfl⟩ := submitting_signed hq₂.signed
    rcases h₃.calls with h | ⟨_, hq₃, h⟩
    · exact ⟨_, by rw [h, List.append_assoc]; rfl, .submit hq₁ hq₂.signed⟩
    · obtain ⟨q₃, rfl⟩ := watching_signed hq₃
      exact ⟨_, by rw [h, List.append_assoc, List.append_assoc]; rfl, .commitStatus hq₁ hq₂ hq₃⟩

/-! ## The order of the calls -/

/-- Calls in order, each made with the deadline of its phase, and each resting on the one before it. -/
structure InOrder (s : Session) (n : Nat) (calls : List Call) : Prop where
  phases : calls.map (·.request.phase) <+: [.endorse, .submit, .commitStatus]
  sent : ∀ c ∈ calls, c = s.sent c.request
  submit : ∀ q, s.sent (.submit q) ∈ calls → ∃ q₁ r₁ e σ, s.sent (.endorse q₁) ∈ calls ∧
    (s.peer.endorse q₁).Brings s.timeouts.endorse r₁ ∧ r₁.preparedTransaction = some e ∧
    s.signer (n + 1) (sha256 e.payload) = .ok σ ∧ q.preparedTransaction = some { e with signature := σ }
  commitStatus : ∀ q, s.sent (.commitStatus q) ∈ calls → ∃ q₂ r₂, s.sent (.submit q₂) ∈ calls ∧
    (s.peer.submit q₂).Brings s.timeouts.submit r₂ ∧ s.signer (n + 2) (sha256 q.request) = .ok q.signature

namespace Footprint

variable {n : Nat} {calls : List Call}

/-- A proposal among the calls was signed first. -/
theorem mem_endorse {q : EndorseRequest} (h : s.Footprint w n calls) (hq : s.sent (.endorse q) ∈ calls) :
    (s.endorsing w).Signed n (.endorse q) := by
  cases h with
  | none => cases hq
  | endorse h₁ =>
    obtain rfl : q = _ := by simpa using hq
    exact h₁
  | submit h₁ _ | commitStatus h₁ _ _ =>
    obtain rfl : q = _ := by simpa using hq
    exact h₁.signed

/-- An envelope among the calls is the one of a proposal before it. -/
theorem mem_submit {q : SubmitRequest} (h : s.Footprint w n calls) (hq : s.sent (.submit q) ∈ calls) :
    ∃ q₁ e, s.sent (.endorse q₁) ∈ calls ∧ (s.endorsing w).Passed n (.endorse q₁) e ∧
      (s.submitting w e).Signed (n + 1) (.submit q) := by
  cases h with
  | none => cases hq
  | endorse => simp at hq
  | submit h₁ h₂ =>
    obtain rfl : q = _ := by simpa using hq
    exact ⟨_, _, .head _, h₁, h₂⟩
  | commitStatus h₁ h₂ _ =>
    obtain rfl : q = _ := by simpa using hq
    exact ⟨_, _, .head _, h₁, h₂.signed⟩

/-- A request for a status among the calls follows an envelope that was taken. -/
theorem mem_commitStatus {q : SignedCommitStatusRequest} (h : s.Footprint w n calls)
    (hq : s.sent (.commitStatus q) ∈ calls) :
    ∃ q₂ e, s.sent (.submit q₂) ∈ calls ∧ (s.submitting w e).Passed (n + 1) (.submit q₂) () ∧
      (s.watching w).Signed (n + 2) (.commitStatus q) := by
  cases h with
  | none => cases hq
  | endorse | submit => simp at hq
  | commitStatus _ h₂ h₃ =>
    obtain rfl : q = _ := by simpa using hq
    exact ⟨_, _, .tail _ (.head _), h₂, h₃⟩

theorem phases (h : s.Footprint w n calls) :
    calls.map (·.request.phase) <+: [.endorse, .submit, .commitStatus] := by
  cases h <;> exact ⟨_, rfl⟩

theorem sent (h : s.Footprint w n calls) : ∀ c ∈ calls, c = s.sent c.request := by
  cases h <;> simp

theorem inOrder (h : s.Footprint w n calls) : s.InOrder n calls := by
  refine ⟨h.phases, h.sent, fun q hq => ?_, fun q hq => ?_⟩
  · obtain ⟨q₁, e, hm, h₁, h₂⟩ := h.mem_submit hq
    obtain ⟨r₁, hb, hp⟩ := endorse_passed h₁
    obtain ⟨σ, hσ, _, _, he⟩ := submit_signed h₂
    exact ⟨q₁, r₁, e, σ, hm, hb, hp, hσ, he⟩
  · obtain ⟨q₂, e, hm, h₂, h₃⟩ := h.mem_commitStatus hq
    obtain ⟨r₂, hb⟩ := submit_passed h₂
    exact ⟨q₂, r₂, hm, hb, (commitStatus_signed h₃).2⟩

end Footprint

/-! ## How a write succeeds -/

/-- The three calls of a write that was committed as `c`, each answered in time. -/
def Confirms (s : Session) (tx : String) (calls : List Call) (c : Committed) : Prop :=
  ∃ q₁ r₁ q₂ r₂ q₃ r₃, calls = [s.sent (.endorse q₁), s.sent (.submit q₂),
      s.sent (.commitStatus q₃)] ∧
    (s.peer.endorse q₁).Brings s.timeouts.endorse r₁ ∧ (s.peer.submit q₂).Brings s.timeouts.submit r₂ ∧
    (s.peer.commitStatus q₃).Brings s.timeouts.commitStatus r₃ ∧ r₃.result = valid ∧ c = ⟨tx, r₃.blockNumber⟩

/-- A write that succeeds has made its three calls. -/
theorem Course.confirms {c : Committed} (h : s.Course w t (.ok c) u) :
    ∃ calls, u.calls = t.calls ++ calls ∧ s.Confirms (s.proposal w).transactionId calls c := by
  cases h with
  | submitted h₁ h₂ h₃ =>
    obtain ⟨_, hq₁, rfl⟩ := h₁.of_ok
    obtain ⟨q₁, rfl⟩ := endorsing_signed hq₁.signed
    obtain ⟨r₁, hb₁, _⟩ := endorse_passed hq₁
    obtain ⟨_, hq₂, rfl⟩ := h₂.of_ok
    obtain ⟨q₂, rfl⟩ := submitting_signed hq₂.signed
    obtain ⟨r₂, hb₂⟩ := submit_passed hq₂
    obtain ⟨_, hq₃, rfl⟩ := h₃.of_ok
    obtain ⟨q₃, rfl⟩ := watching_signed hq₃.signed
    obtain ⟨r₃, hb₃, hv, hc⟩ := commitStatus_passed hq₃
    exact ⟨_, by rw [List.append_assoc, List.append_assoc]; rfl, q₁, r₁, q₂, r₂, q₃, r₃, rfl, hb₁, hb₂, hb₃, hv, hc⟩

/-- A write that got to its third call is at its third stage. -/
theorem Course.third {c₁ c₂ c₃ : Call} (h : s.Course w t x u) (hc : u.calls = t.calls ++ [c₁, c₂, c₃]) :
    ∃ t₂, (s.watching w).Ends t₂ x u ∧ u.calls = t₂.calls ++ [c₃] := by
  cases h with
  | closed => exact absurd (List.self_eq_append_right.1 hc) (List.cons_ne_nil _ _)
  | unendorsed h₁ =>
    rcases h₁.calls with h | ⟨q₁, _, h⟩ <;> rw [h] at hc
    · exact absurd (List.self_eq_append_right.1 hc) (List.cons_ne_nil _ _)
    · cases List.append_cancel_left hc
  | unsubmitted h₁ h₂ =>
    obtain ⟨q₁, _, rfl⟩ := h₁.of_ok
    rcases h₂.calls with h | ⟨q₂, _, h⟩ <;> rw [h] at hc
    · cases List.append_cancel_left hc
    · rw [List.append_assoc] at hc
      cases List.append_cancel_left hc
  | submitted h₁ h₂ h₃ =>
    obtain ⟨q₁, _, rfl⟩ := h₁.of_ok
    obtain ⟨q₂, _, rfl⟩ := h₂.of_ok
    refine ⟨_, h₃, ?_⟩
    rcases h₃.calls with h | ⟨q₃, _, h⟩ <;> rw [h] at hc ⊢
    · rw [List.append_assoc] at hc
      cases List.append_cancel_left hc
    · rw [List.append_assoc, List.append_assoc] at hc
      cases List.append_cancel_left hc
      rfl

/-- A write whose three calls were answered so is committed. -/
theorem Course.of_confirms {calls : List Call} {c : Committed} (h : s.Course w t x u)
    (hc : u.calls = t.calls ++ calls) (hv : s.Confirms (s.proposal w).transactionId calls c) : x = .ok c := by
  obtain ⟨q₁, _, q₂, _, q₃, r₃, rfl, _, _, hb, hr, rfl⟩ := hv
  obtain ⟨t₂, h₃, hc₃⟩ := h.third hc
  obtain ⟨σ, hq, hx⟩ := h₃.of_brings hc₃
  rw [hx r₃ (watching_reply (sent_inj.1 hq) ▸ hb)]
  simp only [watching, committed, hr, ↓reduceIte]
  rfl

/-- **A write goes one step at a time.**  Its calls come in order, each only after the one before it was answered, and
nothing is tried twice; it succeeds exactly if all three were answered and the transaction is valid. -/
theorem submit_in_order (s : Session) (fresh : Fresh) (channel chaincode function : String) (payload : List UInt8)
    (t : Trace) :
    ∃ calls, (Run.after t (s.submitTransaction fresh channel chaincode function payload)).2.calls = t.calls ++ calls ∧
      s.InOrder t.signatures calls ∧
      ∀ c, (Run.after t (s.submitTransaction fresh channel chaincode function payload)).1 = .ok c ↔
        s.Confirms (transactionId fresh.nonce s.creator) calls c := by
  rcases hr : Run.after t (s.submitTransaction fresh channel chaincode function payload) with ⟨x, u⟩
  have h : s.Course ⟨fresh, channel, chaincode, function, payload⟩ t x u := course_of_submit hr
  have htx := s.proposal_transactionId ⟨fresh, channel, chaincode, function, payload⟩
  obtain ⟨calls, hc, hf⟩ := h.footprint
  refine ⟨calls, hc, hf.inOrder, fun c => ⟨fun hx => ?_, fun hv => h.of_confirms hc (by rw [htx]; exact hv)⟩⟩
  rw [show x = .ok c from hx] at h
  obtain ⟨calls', hc', hv⟩ := h.confirms
  rw [List.append_cancel_left (hc.symm.trans hc'), ← htx]
  exact hv

end LedgerClient.Gateway.Session
