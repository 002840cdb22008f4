import LedgerClient.Proofs.Gateway.Evaluation
import LedgerClient.Proofs.UpToTransaction
/-!
# Sessions of blind peers

Two sessions that differ in their keys are asked for the same but for the payload, by requests whose replies differ in
the name of the transaction only (`Session.Blind`).  Then what they report and how they end is the same up to the
transaction (`Session.carryOut_blind`), however far they get.
-/
namespace LedgerClient.Gateway

open Message

variable {α β : Type} {tx tx' : String}

/-! ## Replies -/

/-- **The answers differ in the name of a transaction**, and in what does not matter for what is done with them. -/
inductive Answer.UpTo (tx tx' : String) (A : α → α → Prop) : Answer α → Answer α → Prop where
  | ok {a a' : α} (h : A a a') : UpTo tx tx' A (.ok a) (.ok a')
  | refused {c : RpcCode} {text text' : String} (h : SameText tx tx' text text') :
      UpTo tx tx' A (.refused c text) (.refused c text')
  | unreachable {text text' : String} (h : SameText tx tx' text text') :
      UpTo tx tx' A (.unreachable text) (.unreachable text')

structure Reply.UpTo (tx tx' : String) (A : α → α → Prop) (r r' : Reply α) : Prop where
  delay : r'.delayMs = r.delayMs
  answer : Answer.UpTo tx tx' A r.answer r'.answer

variable {A : α → α → Prop} {B : β → β → Prop}

theorem Reply.UpTo.of_eq {r r' : Reply α} (h : r = r') (hA : ∀ a, A a a) : r.UpTo tx tx' A r' := by
  subst h
  refine ⟨rfl, ?_⟩
  cases r.answer with
  | ok a => exact .ok (hA a)
  | refused c text => exact .refused (.same text)
  | unreachable text => exact .unreachable (.same text)

/-- The peer says the same to everyone. -/
structure Peer.Deaf (p : Peer) : Prop where
  endorse : ∀ q q', p.endorse q = p.endorse q'
  submit : ∀ q q', p.submit q = p.submit q'
  commitStatus : ∀ q q', p.commitStatus q = p.commitStatus q'
  evaluate : ∀ q q', p.evaluate q = p.evaluate q'

theorem statusError_upTo {text text' : String} (h : SameText tx tx' text text') (p : Phase) (secs : Nat)
    (c : RpcCode) : CallError.UpTo tx tx' (statusError p secs c text) (statusError p secs c text') := by
  cases c with
  | deadlineExceeded => exact .same _
  | unavailable | cancelled => exact .lost h
  | _ => exact .rpc h

theorem settle_upTo {r r' : Reply α} (h : r.UpTo tx tx' A r') (p : Phase) (secs : Nat) :
    SideBySide (CallError.UpTo tx tx') A (settle p secs r) (settle p secs r') := by
  unfold settle
  rw [h.delay]
  split
  · exact .error (.same _)
  · obtain ⟨-, ha⟩ := h
    generalize r.answer = a, r'.answer = a' at ha
    cases ha with
    | ok h => exact .ok h
    | refused h => exact .error (statusError_upTo h p secs _)
    | unreachable h => exact .error (.lost h)

namespace Session

/-! ## Signatures and requests -/

/-- The sessions differ in their signers only, which never fail but to sign. -/
structure Twins (s s' : Session) : Prop where
  same : s' = { s with signer := s'.signer }
  signs : ∀ n d e, s.signer n d = .error e → e = .identity .signing
  signs' : ∀ n d e, s'.signer n d = .error e → e = .identity .signing

variable {s s' : Session}

theorem outcome_upTo (hs : s.Twins s') {q q' : Request} (hq : q'.phase = q.phase) {r r' : Reply α}
    (h : r.UpTo tx tx' A r') : SideBySide (Stop.UpTo tx tx') A (s.outcome q r) (s'.outcome q' r') := by
  have hd : s'.deadline q' = s.deadline q := by rw [hs.same, deadline, deadline, hq]
  have hsend : s'.Sendable q' ↔ s.Sendable q := by
    unfold Sendable
    rw [hd, hs.same]
  unfold outcome
  simp only [hsend, hd, hq]
  split
  · have hsettle := settle_upTo h q.phase (s.deadline q)
    generalize settle q.phase (s.deadline q) r = x, settle q.phase (s.deadline q) r' = x' at hsettle
    cases hsettle with
    | ok h => exact .ok h
    | error h => exact .error (.failed h)
  · exact .error .panicked

end Session

/-- **Stages that are asked alike and answered alike** come to the same up to the transaction. -/
theorem Stage.run_upTo {s s' : Session} (hs : s.Twins s') {g : Stage s α β} {g' : Stage s' α β}
    (p : Phase) (hp : ∀ σ, (g.request σ).phase = p) (hp' : ∀ σ, (g'.request σ).phase = p)
    (hreply : ∀ σ σ', (g.reply σ).UpTo tx tx' A (g'.reply σ'))
    (hlook : ∀ a a', A a a' → SideBySide (CallError.UpTo tx tx') B (g.look a) (g'.look a'))
    (hnote : ∀ x x', SideBySide (Stop.UpTo tx tx') A x x' →
      List.Forall₂ (Event.UpTo tx tx') (g.note x) (g'.note x')) : (upTo tx tx').Relates B g.run g'.run := by
  intro t t' ht
  -- a signature that fails is an excuse, and two that are made are answered alike whatever they are
  cases hσ : s.signer t.signatures (sha256 g.message) with
  | error e =>
    rw [after_run_unsigned hσ]
    exact .left (by rw [hs.signs _ _ _ hσ]; rfl)
  | ok σ =>
    cases hσ' : s'.signer t'.signatures (sha256 g'.message) with
    | error e =>
      rw [after_run_unsigned hσ']
      exact .right (by rw [hs.signs' _ _ _ hσ']; rfl)
    | ok σ' =>
      have hout := Session.outcome_upTo hs ((hp' σ').trans (hp σ).symm) (hreply σ σ')
      have htraces := List.rel_append ht.2 (hnote _ _ hout)
      rw [after_run hσ, after_run hσ']
      generalize s.outcome (g.request σ) (g.reply σ) = x, s'.outcome (g'.request σ') (g'.reply σ') = x' at hout htraces
      cases hout with
      | error h => exact .stopped h ⟨ht.1, htraces⟩
      | @ok a a' h =>
        have hl := hlook a a' h
        simp only [Except.bind]
        generalize g.look a = y, g'.look a' = y' at hl
        cases hl with
        | ok h => exact .ok h ⟨ht.1, htraces⟩
        | error h => exact .stopped (.failed h) ⟨ht.1, htraces⟩

namespace Session

/-! ## Uses -/

/-- **The peer is blind** to what two writes of two sessions differ in, and to all signatures: its replies to their
requests differ in the name of the transaction only, and in what is carried back and forth, which `E` relates. -/
structure Blind (s s' : Session) (w w' : Write) (E : Envelope → Envelope → Prop) : Prop where
  endorse : ∀ σ σ', ((s.endorsing w).reply σ).UpTo (s.proposal w).transactionId (s'.proposal w').transactionId
    (fun r r' => Option.Rel E r.preparedTransaction r'.preparedTransaction) ((s'.endorsing w').reply σ')
  submit : ∀ e e', E e e' → ∀ σ σ', ((s.submitting w e).reply σ).UpTo (s.proposal w).transactionId
    (s'.proposal w').transactionId (fun _ _ => True) ((s'.submitting w' e').reply σ')
  commitStatus : ∀ σ σ', ((s.watching w).reply σ).UpTo (s.proposal w).transactionId (s'.proposal w').transactionId
    (fun r r' => r'.result = r.result) ((s'.watching w').reply σ')
  evaluate : ∀ σ σ', ((s.evaluating w).reply σ).UpTo (s.proposal w).transactionId (s'.proposal w').transactionId
    (fun r r' => Option.Rel (fun a a' => a'.status = a.status ∧
      SameText (s.proposal w).transactionId (s'.proposal w').transactionId a.message a'.message) r.result r'.result)
    ((s'.evaluating w').reply σ')

variable {s s' : Session} {w w' : Write} {E : Envelope → Envelope → Prop}

/-- **A peer that does not listen is blind.** -/
theorem blind_of_deaf (h : s.peer.Deaf) (hs : s'.peer = s.peer) : s.Blind s' w w' Eq := by
  refine ⟨fun _ _ => .of_eq ?_ fun r => ?_, fun _ _ _ _ _ => .of_eq ?_ fun _ => trivial,
    fun _ _ => .of_eq ?_ fun _ => rfl, fun _ _ => .of_eq ?_ fun r => ?_⟩
  · simp only [endorsing, hs]
    exact h.endorse _ _
  · cases r.preparedTransaction
    · exact .none
    · exact .some rfl
  · simp only [submitting, hs]
    exact h.submit _ _
  · simp only [watching, hs]
    exact h.commitStatus _ _
  · simp only [evaluating, hs]
    exact h.evaluate _ _
  · cases r.result
    · exact .none
    · exact .some ⟨rfl, .same _⟩

theorem warning_upTo {x x' : Except Stop CommitStatusResponse} {V : CommitStatusResponse → CommitStatusResponse → Prop}
    (h : SideBySide (Stop.UpTo tx tx') V x x') :
    List.Forall₂ (Event.UpTo tx tx') (warning tx x) (warning tx' x') := by
  cases h with
  | ok h => exact .nil
  | error h =>
    cases h with
    | panicked => exact .nil
    | @failed e e' h =>
      cases h with
      | same =>
        cases e with
        | timeout p secs => exact .cons .commitUnknown .nil
        | _ => exact .nil
      | _ => exact .nil

section Stages

variable (hs : s.Twins s') (hb : s.Blind s' w w' E)

include hs hb

theorem endorsing_upTo : (upTo (s.proposal w).transactionId (s'.proposal w').transactionId).Relates E
    (s.endorsing w).run (s'.endorsing w').run := by
  refine Stage.run_upTo hs .endorse (fun _ => rfl) (fun _ => rfl) hb.endorse (fun r r' h => ?_) fun _ _ _ => .nil
  simp only [endorsing, prepared]
  generalize r.preparedTransaction = e, r'.preparedTransaction = e' at h
  cases h with
  | none => exact .error (.same _)
  | some h => exact .ok h

theorem submitting_upTo {e e' : Envelope} (he : E e e') :
    (upTo (s.proposal w).transactionId (s'.proposal w').transactionId).Relates (fun _ _ => True)
      (s.submitting w e).run (s'.submitting w' e').run := by
  exact Stage.run_upTo hs .submit (fun _ => rfl) (fun _ => rfl) (hb.submit e e' he) (fun _ _ _ => .ok trivial)
    fun _ _ _ => .nil

theorem watching_upTo : (upTo (s.proposal w).transactionId (s'.proposal w').transactionId).Relates (fun _ _ => True)
    (s.watching w).run (s'.watching w').run := by
  refine Stage.run_upTo hs .commitStatus (fun _ => rfl) (fun _ => rfl) hb.commitStatus (fun r r' h => ?_)
    fun _ _ => warning_upTo
  simp only [watching, committed, h]
  split
  · exact .ok trivial
  · exact .error .invalidated

theorem evaluating_upTo : (upTo (s.proposal w).transactionId (s'.proposal w').transactionId).Relates (fun _ _ => True)
    (s.evaluating w).run (s'.evaluating w').run := by
  refine Stage.run_upTo hs .evaluate (fun _ => rfl) (fun _ => rfl) hb.evaluate (fun r r' h => ?_) fun _ _ _ => .nil
  simp only [evaluating, answered]
  generalize r.result = a, r'.result = a' at h
  cases h with
  | none => exact .error (.same _)
  | some h =>
    dsimp only
    rw [h.1]
    split
    · exact .error (.refused h.2)
    · exact .ok trivial

/-- **What a session with a blind peer reports is the same up to the transaction**, whatever the payload and the key. -/
theorem carryOut_blind (ho : s.isOpen = true) (op : Operation) :
    (upTo (s.proposal w).transactionId (s'.proposal w').transactionId).Relates (fun _ _ => True)
      (s.carryOut w op) (s'.carryOut w' op) := by
  have ho' : s'.isOpen = true := by rw [hs.same, ho]
  cases op with
  | write =>
    simp only [carryOut]
    rw [submit_eq_stages w ho, submit_eq_stages w' ho']
    refine Comparison.Relates.bind (V := fun _ _ => True) ?_ fun _ _ _ => Comparison.relates_pure trivial
    exact (endorsing_upTo hs hb).bind fun _ _ he => (submitting_upTo hs hb he).bind fun _ _ _ => watching_upTo hs hb
  | read =>
    simp only [carryOut]
    rw [evaluate_eq_stage w ho, evaluate_eq_stage w' ho']
    exact (evaluating_upTo hs hb).bind fun _ _ _ => Comparison.relates_pure trivial

end Stages

end Session
end LedgerClient.Gateway
